import DistributedMesh.ElectionMarks

namespace DistributedMesh.Election

section Marks

variable {nodes : List Node} {inc : Incumbency} {h r : Primary} {n m : Node}

theorem MeshPrimary.nodeType (hmesh : MeshPrimary nodes inc n) : n.nodeType = (n.mesh, "node-admin") := by
  have htype : n.type = "node-admin" := by simpa [isNodeAdmin] using hmesh.1
  exact Prod.ext rfl htype

theorem FabricElected.meshPrimary (helected : FabricElected nodes inc n) : MeshPrimary nodes inc n := by
  cases helected with
  | first _ hlowest => exact hlowest.kind
  | keeps _ _ hmesh => exact hmesh
  | sibling _ _ _ _ _ hmesh _ _ => exact hmesh
  | elsewhere _ _ _ _ hlowest => exact hlowest.kind.1

/-- While a fabric's primary is elected, its recorded one is heard. -/
theorem FabricElected.not_recovering (helected : FabricElected nodes inc n) (mesh : String) :
    ¬ Recovering nodes inc mesh := by
  rintro ⟨h, hrecord, -, hnone⟩
  cases helected with
  | first hno _ => rw [hrecord] at hno; cases hno
  | keeps hsome hholds _ =>
    rw [hrecord] at hsome
    cases hsome
    exact hnone _ hholds
  | sibling hsome hholds _ _ _ _ _ _ =>
    rw [hrecord] at hsome
    cases hsome
    exact hnone _ hholds
  | elsewhere hsome hholds _ _ _ =>
    rw [hrecord] at hsome
    cases hsome
    exact hnone _ hholds

theorem FabricElected.unique (hids : (nodes.map Node.nodeId).Nodup) (hn : FabricElected nodes inc n)
    (hm : FabricElected nodes inc m) : n = m := by
  cases hrecord : inc.fabric with
  | none =>
    have hlowest : ∀ {b}, FabricElected nodes inc b → Lowest nodes inc (MeshPrimary nodes inc) b := by
      intro b hb
      cases hb with
      | first _ hlow => exact hlow
      | keeps hsome _ _ => rw [hrecord] at hsome; cases hsome
      | sibling hsome _ _ _ _ _ _ _ => rw [hrecord] at hsome; cases hsome
      | elsewhere hsome _ _ _ _ => rw [hrecord] at hsome; cases hsome
    exact (hlowest hn).unique hids (hlowest hm)
  | some h =>
    have hheard : ∃ l, Holds nodes inc h l := by
      by_contra hnone
      exact hn.not_recovering h.mesh ⟨h, hrecord, rfl, fun l hl => hnone ⟨l, hl⟩⟩
    obtain ⟨l, hl⟩ := hheard
    rcases (fabricElected_of_some hids hrecord hl).mp hn with ⟨hmesh, rfl⟩ | ⟨hmoved, hn'⟩
    · rcases (fabricElected_of_some hids hrecord hl).mp hm with ⟨-, rfl⟩ | ⟨hmoved, -⟩
      · rfl
      · exact absurd hmesh hmoved
    · rcases (fabricElected_of_some hids hrecord hl).mp hm with ⟨hmesh, -⟩ | ⟨-, hm'⟩
      · exact absurd hmesh hmoved
      · rcases hn' with ⟨hany, hmesh, hsame, -⟩ | ⟨hnone, hlow⟩
        · rcases hm' with ⟨-, hmesh', hsame', -⟩ | ⟨hnone, -⟩
          · refine hmesh.2.unique hids hmesh'.2 ?_
            rw [hmesh.nodeType, hmesh'.nodeType, hsame, hsame']
          · rw [hany] at hnone
            cases hnone
        · rcases hm' with ⟨hany, -⟩ | ⟨-, hlow'⟩
          · rw [hany] at hnone
            cases hnone
          · exact hlow.unique hids hlow'

end Marks

section Order

variable {a b : List Node} {inc : Incumbency}

theorem holds_congr (hab : ∀ n, n ∈ a ↔ n ∈ b) : Holds a inc = Holds b inc := by
  funext h n
  exact propext ⟨fun hn => ⟨(hab n).mp hn.mem, hn.id, hn.known, hn.stays⟩,
    fun hn => ⟨(hab n).mpr hn.mem, hn.id, hn.known, hn.stays⟩⟩

theorem unseen_congr (hab : ∀ n, n ∈ a ↔ n ∈ b) : Unseen a inc = Unseen b inc := by
  funext h
  exact propext ⟨fun hu => ⟨hu.known, fun n hn => hu.other n ((hab n).mpr hn)⟩,
    fun hu => ⟨hu.known, fun n hn => hu.other n ((hab n).mp hn)⟩⟩

theorem lowest_congr (hab : ∀ n, n ∈ a ↔ n ∈ b) : Lowest a inc = Lowest b inc := by
  funext P n
  exact propext ⟨fun hn => ⟨(hab n).mp hn.mem, hn.kind, hn.eligible, fun d hd => hn.le d ((hab d).mpr hd)⟩,
    fun hn => ⟨(hab n).mpr hn.mem, hn.kind, hn.eligible, fun d hd => hn.le d ((hab d).mp hd)⟩⟩

/-- An election reads of the list only which nodes are in it. -/
theorem elected_congr (hab : ∀ n, n ∈ a ↔ n ∈ b) : Elected a inc = Elected b inc := by
  have himp : ∀ {a b : List Node}, (∀ n, n ∈ a ↔ n ∈ b) → ∀ n, Elected a inc n → Elected b inc n := by
    intro a b hab n helected
    have hfree : ∀ role, Free a inc role = Free b inc role := by
      intro role
      unfold Free Recovering
      rw [holds_congr hab]
    cases helected with
    | keeps hf hrecord hholds =>
      rw [hfree] at hf
      rw [holds_congr hab] at hholds
      exact .keeps hf hrecord hholds
    | follows hf hrecord hseen hgone hlowest =>
      rw [hfree] at hf
      rw [unseen_congr hab] at hseen
      rw [holds_congr hab] at hgone
      rw [lowest_congr hab] at hlowest
      exact .follows hf hrecord hseen hgone hlowest
    | first hf hrecord hlowest =>
      rw [hfree] at hf
      rw [lowest_congr hab] at hlowest
      exact .first hf hrecord hlowest
  funext n
  exact propext ⟨himp hab n, himp (fun n => (hab n).symm) n⟩

theorem fabricElected_congr (hab : ∀ n, n ∈ a ↔ n ∈ b) : FabricElected a inc = FabricElected b inc := by
  have himp : ∀ {a b : List Node}, (∀ n, n ∈ a ↔ n ∈ b) → ∀ n, FabricElected a inc n → FabricElected b inc n := by
    intro a b hab n helected
    have hprimary : MeshPrimary a inc = MeshPrimary b inc := by
      unfold MeshPrimary
      rw [elected_congr hab]
    cases helected with
    | first hrecord hlowest =>
      rw [lowest_congr hab, hprimary] at hlowest
      exact .first hrecord hlowest
    | keeps hrecord hholds hmesh =>
      rw [holds_congr hab] at hholds
      rw [hprimary] at hmesh
      exact .keeps hrecord hholds hmesh
    | sibling hrecord hholds hmoved hmem hsurvives hmesh hsame hsucceeds =>
      rw [holds_congr hab] at hholds
      rw [hprimary] at hmoved hmesh
      exact .sibling hrecord hholds hmoved ((hab _).mp hmem) hsurvives hmesh hsame hsucceeds
    | elsewhere hrecord hholds hmoved hgone hlowest =>
      rw [holds_congr hab] at hholds
      rw [lowest_congr hab] at hlowest
      rw [hprimary] at hmoved hlowest
      exact .elsewhere hrecord hholds hmoved (fun s hs => hgone s ((hab s).mpr hs)) hlowest
  funext n
  exact propext ⟨himp hab n, himp (fun n => (hab n).symm) n⟩

end Order

open Classical in
/-- A node as the election marks it. -/
noncomputable def marks (nodes : List Node) (inc : Incumbency) (n : Node) : Node :=
  { n with isPrimary := decide (Elected nodes inc n), isFabricPrimary := decide (FabricElected nodes inc n) }

/-- The nodes an election starts from. -/
def unmarkedAll (nodes : List Node) : List Node := nodes.map Node.unmarked

theorem nodeIds_unmarked (nodes : List Node) : (unmarkedAll nodes).map Node.nodeId = nodes.map Node.nodeId := by
  unfold unmarkedAll
  rw [List.map_map]
  rfl

/-- The program's marks are those of the elections. -/
theorem resolveWith_eq {nodes : List Node} {inc : Incumbency} (hids : (nodes.map Node.nodeId).Nodup) :
    resolveWith nodes inc = (unmarkedAll nodes).map (marks (unmarkedAll nodes) inc) := by
  have hids' : ((unmarkedAll nodes).map Node.nodeId).Nodup := by
    rw [nodeIds_unmarked]
    exact hids
  have hfold : resolveWith nodes inc = (unmarkedAll nodes).mapIdx fun i n =>
      { n with
        isPrimary := ((winners (unmarkedAll nodes) inc).map Prod.snd).contains i
        isFabricPrimary := (electedFabricPrimary (unmarkedAll nodes) inc).filter
          (fun _ => (fabricRecoveryTarget (unmarkedAll nodes) inc).isNone) == some i } := rfl
  rw [hfold]
  generalize unmarkedAll nodes = base at hids'
  refine List.ext_getElem? fun i => ?_
  rw [List.getElem?_mapIdx, List.getElem?_map]
  cases hn : base[i]? with
  | none => rfl
  | some n =>
    have hprimary : ((winners base inc).map Prod.snd).contains i = true ↔ Elected base inc n := by
      rw [List.contains_iff_mem, List.mem_map]
      constructor
      · rintro ⟨⟨role, j⟩, hmem, rfl⟩
        obtain ⟨m, hm, -, helected⟩ := (mem_winners hids').mp hmem
        rw [hn] at hm
        cases hm
        exact helected
      · intro helected
        exact ⟨(n.nodeType, i), (mem_winners hids').mpr ⟨n, hn, rfl, helected⟩, rfl⟩
    have hfabric : ((electedFabricPrimary base inc).filter
        (fun _ => (fabricRecoveryTarget base inc).isNone) == some i) = true ↔ FabricElected base inc n := by
      rw [beq_iff_eq, fabric_iff hids']
      constructor
      · rintro ⟨m, hm, helected⟩
        rw [hn] at hm
        cases hm
        exact helected
      · exact fun helected => ⟨n, hn, helected⟩
    rw [Option.map_some, Option.map_some]
    congr 1
    unfold marks
    classical
    congr 1
    · rw [Bool.eq_iff_iff, hprimary, decide_eq_true_iff]
    · rw [Bool.eq_iff_iff, hfabric, decide_eq_true_iff]

/-- A record names a node's birth: the one known, or where none is, one not known gone. -/
structure Names (inc : Incumbency) (n : Node) (r : Primary) : Prop where
  id : r.nodeId = n.nodeId
  birth : ∀ i, n.incarnationId = some i → r.incarnation = i
  known : n.incarnationId = none → inc.lost.contains r.incarnation = false

/-- Each marked role's record is replaced by one naming the marked birth, and every other record kept. -/
structure Replaces (marked : List Node) (inc inc' : Incumbency) : Prop where
  lost : inc'.lost = inc.lost
  named : ∀ n ∈ marked, n.isPrimary = true → ∃ r, inc'.record n.nodeType = some r ∧ Names inc n r
  kept : ∀ role, (∀ n ∈ marked, n.isPrimary = true → n.nodeType ≠ role) → inc'.record role = inc.record role
  fabricNamed : ∀ n ∈ marked, n.isFabricPrimary = true → ∃ r, inc'.fabric = some r ∧ Names inc n r
  fabricKept : (∀ n ∈ marked, n.isFabricPrimary = false) → inc'.fabric = inc.fabric

section Again

variable {nodes : List Node} {inc inc' : Incumbency} {n m : Node} {r : Primary}

theorem Elected.holds (helected : Elected nodes inc n) (hnames : Names inc n r) : Holds nodes inc r n := by
  have hmem := helected.mem
  -- Neither unheard, nor known gone.
  have hheard : n.status ≠ .pendingReconnect ∧ n.status ≠ .dead ∧
      ∀ i, n.incarnationId = some i → inc.lost.contains i = false := by
    have hlow : ∀ {P}, Lowest nodes inc P n → n.status ≠ .pendingReconnect ∧ n.status ≠ .dead ∧
        ∀ i, n.incarnationId = some i → inc.lost.contains i = false := by
      intro P hlowest
      have helig := hlowest.eligible
      unfold eligible Incumbency.isLost at helig
      rw [Bool.and_eq_true, beq_iff_eq, Bool.not_eq_true'] at helig
      obtain ⟨hready, hlost⟩ := helig
      refine ⟨by rw [hready]; decide, by rw [hready]; decide, fun i hi => ?_⟩
      rw [hi, Option.any_some] at hlost
      exact hlost
    cases helected with
    | keeps _ _ hholds =>
      have hstays := hholds.stays
      unfold yields at hstays
      simp only [Bool.or_eq_false_iff, beq_eq_false_iff_ne] at hstays
      obtain ⟨⟨hbirth, hreconnect⟩, hdead⟩ := hstays
      refine ⟨hreconnect, hdead, fun i hi => ?_⟩
      rw [hi, Option.any_some, bne_eq_false_iff_eq] at hbirth
      rw [hbirth]
      exact hholds.known
    | follows _ _ _ _ hlowest => exact hlow hlowest
    | first _ _ hlowest => exact hlow hlowest
  obtain ⟨hreconnect, hdead, hlost⟩ := hheard
  refine ⟨hmem, hnames.id.symm, ?_, ?_⟩
  · cases hi : n.incarnationId with
    | none => exact hnames.known hi
    | some i =>
      rw [hnames.birth i hi]
      exact hlost i hi
  · unfold yields
    cases hi : n.incarnationId with
    | none => simp [hreconnect, hdead]
    | some i => simp [hnames.birth i hi, hreconnect, hdead]

theorem holds_of_lost (hlost : inc'.lost = inc.lost) : Holds nodes inc' = Holds nodes inc := by
  funext h n
  exact propext ⟨fun hn => ⟨hn.mem, hn.id, hlost ▸ hn.known, hn.stays⟩,
    fun hn => ⟨hn.mem, hn.id, hlost.symm ▸ hn.known, hn.stays⟩⟩

theorem unseen_of_lost (hlost : inc'.lost = inc.lost) : Unseen nodes inc' = Unseen nodes inc := by
  funext h
  exact propext ⟨fun hu => ⟨hlost ▸ hu.known, hu.other⟩, fun hu => ⟨hlost.symm ▸ hu.known, hu.other⟩⟩

theorem isLost_of_lost (hlost : inc'.lost = inc.lost) (n : Node) : inc'.isLost n = inc.isLost n := by
  unfold Incumbency.isLost
  rw [hlost]

theorem lowest_of_lost (hlost : inc'.lost = inc.lost) : Lowest nodes inc' = Lowest nodes inc := by
  have heligible : eligible inc' = eligible inc := by
    funext b
    unfold eligible
    rw [isLost_of_lost hlost]
  funext P n
  exact propext ⟨fun hn => ⟨hn.mem, hn.kind, heligible ▸ hn.eligible, fun b hb hP he => hn.le b hb hP (heligible ▸ he)⟩,
    fun hn => ⟨hn.mem, hn.kind, heligible.symm ▸ hn.eligible, fun b hb hP he => hn.le b hb hP (heligible ▸ he)⟩⟩

/-- What replaces the records of the marked roles, on the elections themselves. -/
structure Renews (nodes : List Node) (inc inc' : Incumbency) : Prop where
  lost : inc'.lost = inc.lost
  named : ∀ n, Elected nodes inc n → ∃ r, inc'.record n.nodeType = some r ∧ Names inc n r
  kept : ∀ role, (∀ n, Elected nodes inc n → n.nodeType ≠ role) → inc'.record role = inc.record role
  fabricNamed : ∀ n, FabricElected nodes inc n → ∃ r, inc'.fabric = some r ∧ Names inc n r
  fabricKept : (∀ n, ¬ FabricElected nodes inc n) → inc'.fabric = inc.fabric

theorem Renews.recovering (h : Renews nodes inc inc') (mesh : String) :
    Recovering nodes inc' mesh ↔ Recovering nodes inc mesh := by
  by_cases helected : ∃ f, FabricElected nodes inc f
  · obtain ⟨f, hf⟩ := helected
    obtain ⟨r, hrecord, hnames⟩ := h.fabricNamed f hf
    refine ⟨?_, fun hyes => absurd hyes (hf.not_recovering mesh)⟩
    rintro ⟨r', hrecord', -, hnone⟩
    rw [hrecord] at hrecord'
    cases hrecord'
    rw [holds_of_lost h.lost] at hnone
    exact absurd (hf.meshPrimary.2.holds hnames) (hnone f)
  · have hsame := h.fabricKept fun f hf => helected ⟨f, hf⟩
    unfold Recovering
    rw [hsame, holds_of_lost h.lost]

theorem Renews.free (h : Renews nodes inc inc') (role : String × String) : Free nodes inc' role ↔ Free nodes inc role := by
  unfold Free
  rw [h.recovering]

theorem Renews.elected (hids : (nodes.map Node.nodeId).Nodup) (h : Renews nodes inc inc') :
    Elected nodes inc' n ↔ Elected nodes inc n := by
  by_cases hwon : ∃ w, Elected nodes inc w ∧ w.nodeType = n.nodeType
  · obtain ⟨w, hw, hrole⟩ := hwon
    obtain ⟨r, hrecord, hnames⟩ := h.named w hw
    have hholds : Holds nodes inc' r w := by
      rw [holds_of_lost h.lost]
      exact hw.holds hnames
    have hfree : Free nodes inc' n.nodeType := by
      rw [h.free, ← hrole]
      exact hw.free
    rw [hrole] at hrecord
    rw [elected_of_some hfree hrecord]
    constructor
    · rintro (hn | ⟨-, hgone, -⟩)
      · rw [holds_unique hids hn hholds]
        exact hw
      · exact absurd (congrArg Prod.snd hrole) (hgone w hholds)
    · intro hn
      rw [hn.unique hids hw hrole.symm]
      exact Or.inl hholds
  · have hsame := h.kept n.nodeType fun w hw hrole => hwon ⟨w, hw, hrole⟩
    by_cases hfree : Free nodes inc n.nodeType
    · have hfree' := (h.free n.nodeType).mpr hfree
      cases hrecord : inc.record n.nodeType with
      | none =>
        rw [elected_of_none hfree' (hsame.trans hrecord), elected_of_none hfree hrecord, lowest_of_lost h.lost]
      | some p =>
        rw [elected_of_some hfree' (hsame.trans hrecord), elected_of_some hfree hrecord, lowest_of_lost h.lost,
          holds_of_lost h.lost, unseen_of_lost h.lost]
    · refine ⟨fun hn => absurd ((h.free n.nodeType).mp hn.free) hfree, fun hn => absurd hn.free hfree⟩

theorem fabricElected_imp {inc inc' : Incumbency} (hlost : inc'.lost = inc.lost) (hfabric : inc'.fabric = inc.fabric)
    (hprimary : MeshPrimary nodes inc' = MeshPrimary nodes inc) (hn : FabricElected nodes inc n) :
    FabricElected nodes inc' n := by
  have hsurvives : survives inc' = survives inc := by
    funext h s
    unfold survives
    rw [isLost_of_lost hlost]
  have hsucceeds : succeeds inc' = succeeds inc := by
    funext h s
    unfold succeeds
    rw [isLost_of_lost hlost]
  cases hn with
  | first hrecord hlowest =>
    rw [← lowest_of_lost hlost, ← hprimary] at hlowest
    exact .first (hfabric.trans hrecord) hlowest
  | keeps hrecord hholds hmesh =>
    rw [← holds_of_lost hlost] at hholds
    rw [← hprimary] at hmesh
    exact .keeps (hfabric.trans hrecord) hholds hmesh
  | sibling hrecord hholds hmoved hmem hs hmesh hsame hnext =>
    rw [← holds_of_lost hlost] at hholds
    rw [← hprimary] at hmoved hmesh
    rw [← hsurvives] at hs
    rw [← hsucceeds] at hnext
    exact .sibling (hfabric.trans hrecord) hholds hmoved hmem hs hmesh hsame hnext
  | elsewhere hrecord hholds hmoved hgone hlowest =>
    rw [← holds_of_lost hlost] at hholds
    rw [← lowest_of_lost hlost, ← hprimary] at hlowest
    rw [← hprimary] at hmoved
    rw [← hsurvives] at hgone
    exact .elsewhere (hfabric.trans hrecord) hholds hmoved hgone hlowest

theorem Renews.fabricElected (hids : (nodes.map Node.nodeId).Nodup) (h : Renews nodes inc inc') :
    FabricElected nodes inc' n ↔ FabricElected nodes inc n := by
  have hprimary : MeshPrimary nodes inc' = MeshPrimary nodes inc := by
    funext b
    unfold MeshPrimary
    rw [h.elected hids]
  by_cases helected : ∃ f, FabricElected nodes inc f
  · obtain ⟨f, hf⟩ := helected
    obtain ⟨r, hrecord, hnames⟩ := h.fabricNamed f hf
    have hholds : Holds nodes inc' r f := by
      rw [holds_of_lost h.lost]
      exact hf.meshPrimary.2.holds hnames
    have hmesh : MeshPrimary nodes inc' f := by
      rw [hprimary]
      exact hf.meshPrimary
    rw [fabricElected_of_some hids hrecord hholds]
    constructor
    · rintro (⟨-, rfl⟩ | ⟨hmoved, -⟩)
      · exact hf
      · exact absurd hmesh hmoved
    · intro hn
      exact Or.inl ⟨hmesh, hn.unique hids hf⟩
  · have hsame := h.fabricKept fun f hf => helected ⟨f, hf⟩
    constructor
    · exact fabricElected_imp h.lost.symm hsame.symm hprimary.symm
    · exact fabricElected_imp h.lost hsame hprimary

end Again

section Projection

variable {nodes : List Node} {inc : Incumbency}

theorem mem_resolveWith (hids : (nodes.map Node.nodeId).Nodup) {m : Node} (hm : m ∈ resolveWith nodes inc) :
    ∃ n ∈ unmarkedAll nodes, m = marks (unmarkedAll nodes) inc n := by
  rw [resolveWith_eq hids] at hm
  obtain ⟨n, hn, rfl⟩ := List.mem_map.mp hm
  exact ⟨n, hn, rfl⟩

theorem marks_isPrimary {n : Node} : (marks nodes inc n).isPrimary = true ↔ Elected nodes inc n := by
  simp [marks]

theorem marks_isFabricPrimary {n : Node} : (marks nodes inc n).isFabricPrimary = true ↔ FabricElected nodes inc n := by
  simp [marks]

theorem unmarked_unmarkedAll {n : Node} (hn : n ∈ unmarkedAll nodes) : n.unmarked = n := by
  obtain ⟨m, -, rfl⟩ := List.mem_map.mp hn
  rfl

theorem unmarkedAll_resolveWith (hids : (nodes.map Node.nodeId).Nodup) :
    unmarkedAll (resolveWith nodes inc) = unmarkedAll nodes := by
  rw [resolveWith_eq hids]
  conv_rhs => rw [← List.map_id (unmarkedAll nodes)]
  rw [unmarkedAll, List.map_map]
  refine List.map_congr_left fun n hn => ?_
  exact unmarked_unmarkedAll hn

theorem Replaces.renews (hids : (nodes.map Node.nodeId).Nodup) {inc' : Incumbency}
    (h : Replaces (resolveWith nodes inc) inc inc') : Renews (unmarkedAll nodes) inc inc' := by
  have hmarked : ∀ n ∈ unmarkedAll nodes, marks (unmarkedAll nodes) inc n ∈ resolveWith nodes inc := by
    intro n hn
    rw [resolveWith_eq hids]
    exact List.mem_map_of_mem hn
  refine ⟨h.lost, fun n hn => ?_, fun role hnone => h.kept role fun m hm hprimary => ?_, fun n hn => ?_,
    fun hnone => h.fabricKept fun m hm => ?_⟩
  · obtain ⟨r, hr, hnames⟩ := h.named _ (hmarked n hn.mem) (marks_isPrimary.mpr hn)
    exact ⟨r, hr, hnames.id, hnames.birth, hnames.known⟩
  · obtain ⟨n, hn, rfl⟩ := mem_resolveWith hids hm
    exact hnone n (marks_isPrimary.mp hprimary)
  · obtain ⟨r, hr, hnames⟩ := h.fabricNamed _ (hmarked n hn.meshPrimary.2.mem) (marks_isFabricPrimary.mpr hn)
    exact ⟨r, hr, hnames.id, hnames.birth, hnames.known⟩
  · obtain ⟨n, hn, rfl⟩ := mem_resolveWith hids hm
    rw [Bool.eq_false_iff]
    exact fun hfabric => hnone n (marks_isFabricPrimary.mp hfabric)

theorem nodeIds_resolveWith (hids : (nodes.map Node.nodeId).Nodup) :
    (resolveWith nodes inc).map Node.nodeId = nodes.map Node.nodeId := by
  rw [← nodeIds_unmarked, unmarkedAll_resolveWith hids, nodeIds_unmarked]

/-- Resolving again over the records of the marked births gives the same marks. -/
theorem resolveWith_again (hids : (nodes.map Node.nodeId).Nodup) {inc' : Incumbency}
    (h : Replaces (resolveWith nodes inc) inc inc') : resolveWith (resolveWith nodes inc) inc' = resolveWith nodes inc := by
  have hids' : ((resolveWith nodes inc).map Node.nodeId).Nodup := by
    rw [nodeIds_resolveWith hids]
    exact hids
  have hbase : ((unmarkedAll nodes).map Node.nodeId).Nodup := by
    rw [nodeIds_unmarked]
    exact hids
  have hrenews := h.renews hids
  rw [resolveWith_eq hids', unmarkedAll_resolveWith hids, resolveWith_eq hids]
  refine List.map_congr_left fun n _ => ?_
  have helected : Elected (unmarkedAll nodes) inc' n = Elected (unmarkedAll nodes) inc n := propext (hrenews.elected hbase)
  have hfabric : FabricElected (unmarkedAll nodes) inc' n = FabricElected (unmarkedAll nodes) inc n :=
    propext (hrenews.fabricElected hbase)
  unfold marks
  rw [helected, hfabric]

theorem resolveWith_perm {nodes' : List Node} (hids : (nodes.map Node.nodeId).Nodup) (hperm : nodes'.Perm nodes) :
    (resolveWith nodes' inc).Perm (resolveWith nodes inc) := by
  have hids' : (nodes'.map Node.nodeId).Nodup := (hperm.map Node.nodeId).nodup_iff.mpr hids
  have hbase : (unmarkedAll nodes').Perm (unmarkedAll nodes) := hperm.map Node.unmarked
  have hmarks : marks (unmarkedAll nodes') inc = marks (unmarkedAll nodes) inc := by
    have hmem : ∀ n, n ∈ unmarkedAll nodes' ↔ n ∈ unmarkedAll nodes := fun n => hbase.mem_iff
    funext n
    unfold marks
    rw [elected_congr hmem, fabricElected_congr hmem]
  rw [resolveWith_eq hids', resolveWith_eq hids, hmarks]
  exact hbase.map _

/-- A birth of the list is heard: not known gone, and neither unheard past the floor nor dead. -/
def Heard (inc : Incumbency) (h : Primary) (n : Node) : Prop :=
  n.nodeId = h.nodeId ∧ n.incarnationId = some h.incarnation ∧ inc.lost.contains h.incarnation = false ∧
    n.status ≠ .pendingReconnect ∧ n.status ≠ .dead

theorem Heard.holds {h : Primary} {n : Node} (hn : n ∈ nodes) (hheard : Heard inc h n) : Holds nodes inc h n := by
  obtain ⟨hid, hbirth, hknown, hreconnect, hdead⟩ := hheard
  exact ⟨hn, hid, hknown, by simp [yields, hbirth, hreconnect, hdead]⟩

/-- The birth a record names is not heard: known gone, or its node not in the list, replaced, or unheard past the floor. -/
def NotHeard (nodes : List Node) (inc : Incumbency) (h : Primary) : Prop :=
  inc.lost.contains h.incarnation = true ∨ ∀ n ∈ nodes, n.nodeId = h.nodeId → yields h n = true

/-- One primary of a type in a mesh and one of the fabric, which is its mesh's; the same for every order of the nodes; a
recorded primary that is heard is followed by no other; a mesh whose fabric record is not heard has no primary; and
recording the marked births marks them again. -/
theorem election_projection (hids : (nodes.map Node.nodeId).Nodup) (inc : Incumbency) :
    (∀ a ∈ resolveWith nodes inc, ∀ b ∈ resolveWith nodes inc, a.isPrimary = true → b.isPrimary = true →
      a.mesh = b.mesh → a.type = b.type → a = b) ∧
    (∀ a ∈ resolveWith nodes inc, a.isFabricPrimary = true →
      isNodeAdmin a.type = true ∧ a.isPrimary = true ∧ ∀ b ∈ resolveWith nodes inc, b.isFabricPrimary = true → a = b) ∧
    (∀ nodes' : List Node, nodes'.Perm nodes → (resolveWith nodes' inc).Perm (resolveWith nodes inc)) ∧
    (∀ role h, inc.record role = some h → ∀ n ∈ resolveWith nodes inc, n.nodeType = role → Heard inc h n →
      ∀ m ∈ resolveWith nodes inc, m.isPrimary = true → m.nodeType = role → m = n) ∧
    (∀ h, inc.fabric = some h → NotHeard (resolveWith nodes inc) inc h →
      ∀ m ∈ resolveWith nodes inc,
        (m.mesh = h.mesh → isNodeAdmin m.type = true → m.isPrimary = false) ∧ m.isFabricPrimary = false) ∧
    (∀ inc', Replaces (resolveWith nodes inc) inc inc' →
      resolveWith (resolveWith nodes inc) inc' = resolveWith nodes inc) := by
  have hbase : ((unmarkedAll nodes).map Node.nodeId).Nodup := by
    rw [nodeIds_unmarked]
    exact hids
  refine ⟨?_, ?_, fun nodes' hperm => resolveWith_perm hids hperm, ?_, ?_, fun inc' h => resolveWith_again hids h⟩
  · intro a ha b hb hprimary hprimary' hmesh htype
    obtain ⟨n, hn, rfl⟩ := mem_resolveWith hids ha
    obtain ⟨m, hm, rfl⟩ := mem_resolveWith hids hb
    rw [(marks_isPrimary.mp hprimary).unique hbase (marks_isPrimary.mp hprimary') (Prod.ext hmesh htype)]
  · intro a ha hfabric
    obtain ⟨n, hn, rfl⟩ := mem_resolveWith hids ha
    have helected := marks_isFabricPrimary.mp hfabric
    refine ⟨helected.meshPrimary.1, marks_isPrimary.mpr helected.meshPrimary.2, fun b hb hfabric' => ?_⟩
    obtain ⟨m, hm, rfl⟩ := mem_resolveWith hids hb
    rw [helected.unique hbase (marks_isFabricPrimary.mp hfabric')]
  · intro role h hrecord a ha hrole hheard b hb hprimary hrole'
    obtain ⟨n, hn, rfl⟩ := mem_resolveWith hids ha
    obtain ⟨m, hm, rfl⟩ := mem_resolveWith hids hb
    have helected := marks_isPrimary.mp hprimary
    have hholds : Holds (unmarkedAll nodes) inc h n := Heard.holds hn hheard
    have hm' : m.nodeType = role := hrole'
    have hn' : n.nodeType = role := hrole
    rw [← hm'] at hrecord
    rcases (elected_of_some helected.free hrecord).mp helected with hkept | ⟨-, hgone, -⟩
    · rw [holds_unique hbase hkept hholds]
    · exact absurd (congrArg Prod.snd (hn'.trans hm'.symm)) (hgone n hholds)
  · intro h hrecord hunheard a ha
    obtain ⟨m, hm, rfl⟩ := mem_resolveWith hids ha
    have hnone : ∀ n, ¬ Holds (unmarkedAll nodes) inc h n := by
      intro n hn
      have hmem : marks (unmarkedAll nodes) inc n ∈ resolveWith nodes inc := by
        rw [resolveWith_eq hids]
        exact List.mem_map_of_mem hn.mem
      rcases hunheard with hlost | hyields
      · rw [hn.known] at hlost
        cases hlost
      · have hgone : yields h n = true := hyields (marks (unmarkedAll nodes) inc n) hmem hn.id
        rw [hn.stays] at hgone
        cases hgone
    have hrecovering : Recovering (unmarkedAll nodes) inc h.mesh := ⟨h, hrecord, rfl, hnone⟩
    refine ⟨fun hmesh hadmin => ?_, ?_⟩
    · rw [Bool.eq_false_iff]
      intro hprimary
      have hfree := (marks_isPrimary.mp hprimary).free
      refine hfree ⟨hadmin, ?_⟩
      rw [show m.nodeType.1 = h.mesh from hmesh]
      exact hrecovering
    · rw [Bool.eq_false_iff]
      exact fun hfabric => (marks_isFabricPrimary.mp hfabric).not_recovering h.mesh hrecovering

/-- Three node-admins of two meshes and a gateway; the recorded mesh primary of m1 is not the lowest. -/
def twoMeshes : List Node :=
  [⟨"node-admin", "m1", "n3", some "b3", .leaving, false, false⟩, ⟨"node-admin", "m1", "n1", some "b1", .ready, false, false⟩,
    ⟨"gateway", "m1", "n2", none, .ready, true, false⟩, ⟨"node-admin", "m2", "n4", some "b4", .ready, false, true⟩]

def recordedFirst : Incumbency := ⟨none, (∅ : Std.ExtTreeMap String Primary).insert "m1" ⟨"m1", "n3", "b3", 1⟩, ∅, ∅⟩

theorem election_projection_twoMeshes :
    (resolveWith twoMeshes recordedFirst).map (fun n => (n.isPrimary, n.isFabricPrimary)) =
        [(true, false), (false, false), (true, false), (true, true)] ∧
      (resolveWith twoMeshes.reverse recordedFirst).Perm (resolveWith twoMeshes recordedFirst) := by
  refine ⟨by decide +kernel, ?_⟩
  have hids : (twoMeshes.map Node.nodeId).Nodup := by decide
  exact (election_projection hids recordedFirst).2.2.1 _ twoMeshes.reverse_perm

end Projection

end DistributedMesh.Election
