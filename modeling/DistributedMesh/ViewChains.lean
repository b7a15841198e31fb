import DistributedMesh.ViewStops

namespace DistributedMesh

open GuardedRuns KeyedMaps

/-- A digest as it reaches a view: what carried it, and when it is heard. -/
structure Arrival where
  via : Via
  digest : MeshDigest
  now : Nat

/-- `node` is a birth of the chain, and names the birth before it. -/
structure OfChain (chain : List String) (node : MeshNode) : Prop where
  mem : node.incarnation ∈ chain
  names : ∀ i, chain[i + 1]? = some node.incarnation → node.supersedes = chain[i]?

theorem ofChain_iff {chain : List String} {node : MeshNode} :
    OfChain chain node ↔ node.incarnation ∈ chain ∧
      ∀ i < chain.length, chain[i + 1]? = some node.incarnation → node.supersedes = chain[i]? := by
  constructor
  · intro h
    exact ⟨h.mem, fun i _ => h.names i⟩
  · rintro ⟨hmem, hnames⟩
    refine ⟨hmem, fun i hi => hnames i ?_ hi⟩
    have hlt := (List.getElem?_eq_some_iff.mp hi).1
    omega

instance (chain : List String) (node : MeshNode) : Decidable (OfChain chain node) :=
  decidable_of_iff _ ofChain_iff.symm

/-- A birth's place in its chain. -/
def birthIndex (chain : List String) (node : MeshNode) : Nat := chain.idxOf node.incarnation

section Chain

variable {chain : List String} {a b : MeshNode}

theorem OfChain.at_index (h : OfChain chain a) : chain[birthIndex chain a]? = some a.incarnation := by
  have hlt : birthIndex chain a < chain.length := List.idxOf_lt_length_iff.mpr h.mem
  rw [List.getElem?_eq_getElem hlt]
  exact congrArg some (List.getElem_idxOf hlt)

theorem OfChain.incarnation_eq (ha : OfChain chain a) (hb : OfChain chain b)
    (h : birthIndex chain a = birthIndex chain b) : a.incarnation = b.incarnation := by
  have hsome := ha.at_index
  rw [h, hb.at_index] at hsome
  exact (Option.some.inj hsome).symm

/-- The birth right before another is the one it names. -/
theorem OfChain.supersedes_of_next (ha : OfChain chain a) (hb : OfChain chain b)
    (h : birthIndex chain a = birthIndex chain b + 1) : a.supersedes = some b.incarnation := by
  have hat := ha.at_index
  rw [h] at hat
  rw [ha.names _ hat]
  exact hb.at_index

/-- A birth names no other of its chain than the one right before it. -/
theorem OfChain.not_supersedes (hchain : chain.Nodup) (ha : OfChain chain a) (hb : OfChain chain b)
    (h : birthIndex chain b + 2 ≤ birthIndex chain a) : a.supersedes ≠ some b.incarnation := by
  obtain ⟨k, hk⟩ := Nat.exists_eq_add_of_le h
  have hat := ha.at_index
  rw [hk, show birthIndex chain b + 2 + k = birthIndex chain b + 1 + k + 1 by omega] at hat
  intro hs
  rw [ha.names _ hat] at hs
  have hsame : chain[birthIndex chain b + 1 + k]? = chain[birthIndex chain b]? := hs.trans hb.at_index.symm
  have hlt : birthIndex chain b < chain.length := List.idxOf_lt_length_iff.mpr hb.mem
  have heq := (List.getElem?_inj hlt hchain).mp hsame.symm
  omega

end Chain

namespace DigestView

/-- A digest of the node is refused before it is compared with what is held: the node is held deleted,
or the birth recovering or stopped. -/
def turnsAway (v : DigestView) (d : MeshDigest) (now : Nat) : Bool :=
  v.isDeletedAt d.node.nodeId now || v.isRecovering d.node.nodeId d.node.incarnation ||
    (v.isStopped d && !v.nextCycle d)

section Records

variable {v : DigestView} {via : Via} {d : MeshDigest} {now : Nat}

theorem stoppedRefuses_refuses (v : DigestView) (d : MeshDigest) (via : Via) (now : Nat) :
    (v.stoppedRefuses d via now).2 = (v.isStopped d && !v.nextCycle d) := by
  unfold stoppedRefuses
  split
  next hnext => simp [hnext]
  next hnext =>
    split
    next hnone => simp [isStopped, holdsStopped, hnone]
    next mark hmark =>
      split
      next hother => simp [isStopped, holdsStopped, hmark, hother]
      next hsame => simp [isStopped, holdsStopped, hmark, not_not.mp hsame, hnext]

theorem stoppedRefuses_inner (v : DigestView) (d : MeshDigest) (via : Via) (now : Nat) :
    (v.stoppedRefuses d via now).1.inner = v.inner := by
  unfold stoppedRefuses
  split
  next => rfl
  next =>
    split
    next => rfl
    next =>
      split
      next => rfl
      next => rfl

/-- A digest is turned away and the members stand, or it is installed under their hold. -/
theorem recordVia_cases (v : DigestView) (via : Via) (d : MeshDigest) (now : Nat) :
    (v.turnsAway d now = true ∧ (v.recordVia via d now).1.inner = v.inner) ∨
      (v.turnsAway d now = false ∧
        ∃ u : DigestView, u.inner = v.inner ∧ (v.recordVia via d now).1 = (u.install via d now).1) := by
  have hstop := (v.expireDeletedAt now).stoppedRefuses_refuses d via now
  have hinner := (v.expireDeletedAt now).stoppedRefuses_inner d via now
  have hcases := (v.expireDeletedAt now).stoppedRefuses_cases d via now
  have haway : v.turnsAway d now = ((v.expireDeletedAt now).deleted.contains d.node.nodeId ||
      (v.expireDeletedAt now).isRecovering d.node.nodeId d.node.incarnation ||
      ((v.expireDeletedAt now).stoppedRefuses d via now).2) := by
    rw [hstop]
    rfl
  have hexpired : (v.expireDeletedAt now).inner = v.inner := rfl
  rw [haway]
  unfold recordVia
  generalize v.expireDeletedAt now = u at hinner hcases hexpired ⊢
  dsimp only
  split
  next hdel =>
    refine Or.inl ⟨by simp [hdel], ?_⟩
    split
    next =>
      unfold noteReturned
      split
      next => exact hexpired
      next => exact hexpired
    next => exact hexpired
  next hdel =>
    split
    next hrec => exact Or.inl ⟨by simp [hrec], hexpired⟩
    next hrec =>
      generalize u.stoppedRefuses d via now = out at hinner hcases ⊢
      obtain ⟨w, refused⟩ := out
      rcases hcases with ⟨rfl, -⟩ | ⟨rfl, -, hmark, -⟩
      · exact Or.inl ⟨by simp, hinner.trans hexpired⟩
      · have hstopped : w.isStopped d = false := by
          unfold isStopped holdsStopped
          rw [hmark]
          rfl
        simp only [hstopped, Bool.false_eq_true, if_false]
        exact Or.inr ⟨by simp [hdel, hrec], w, hinner.trans hexpired, rfl⟩

theorem keepReportedStatus_digestSeq (v : DigestView) (d : MeshDigest) :
    (v.keepReportedStatus d).digestSeq = d.digestSeq := by
  unfold keepReportedStatus
  split
  next =>
    split
    next =>
      split
      next => rfl
      next => rfl
    next => rfl
  next => rfl

/-- What a digest held in place of another shows of it: a later word of the birth, or another birth than
the one it names. -/
structure Follows (held d : MeshDigest) : Prop where
  later : held.node.incarnation = d.node.incarnation → held.digestSeq ≤ d.digestSeq
  other : held.node.incarnation ≠ d.node.incarnation → held.node.supersedes ≠ some d.node.incarnation

theorem follows_of_heartbeat {held : MeshDigest} (hid : held.node.nodeId = d.node.nodeId)
    (h : refusesHeartbeat held d = false) : Follows held d := by
  simp only [refusesHeartbeat, admitDigest, hid, bne_self_eq_false, Bool.false_or, Bool.or_eq_false_iff,
    Bool.not_eq_false', Bool.or_eq_true, decide_eq_true_eq, bne_iff_ne, Bool.and_eq_false_iff, bne_eq_false_iff_eq,
    beq_eq_false_iff_ne] at h
  obtain ⟨⟨hadmits, -⟩, hnamed⟩ := h
  constructor
  · intro hsame
    rcases hadmits with hne | hlt
    · exact absurd hsame hne
    · exact Nat.le_of_lt hlt
  · intro hne
    rcases hnamed with hsame | hother
    · exact absurd hsame hne
    · exact hother

theorem follows_of_copy {own : Bool} {held : MeshDigest} (h : refusesCopy own held d = false) : Follows held d := by
  unfold refusesCopy at h
  rw [Bool.or_eq_false_iff] at h
  constructor
  · intro hsame
    simp only [hsame, if_true, Bool.or_eq_false_iff, decide_eq_false_iff_not] at h
    exact Nat.le_of_not_lt h.2.1
  · intro hne
    simp only [hne, if_false, beq_eq_false_iff_ne] at h
    exact h.2

/-- The members after an installation: as they were, or with the digest held after the one it follows. -/
theorem install_inner (v : DigestView) (via : Via) (d : MeshDigest) (now : Nat) :
    (v.install via d now).1.inner = v.inner ∨
      (∃ entry : HeldMember, entry.digest.node = d.node ∧ entry.digest.digestSeq = d.digestSeq ∧
        (v.install via d now).1.inner = v.inner.insert d.node.nodeId entry ∧
        ∀ held, v.inner.map[d.node.nodeId]? = some held → held.digest.node.nodeId = d.node.nodeId →
          Follows held.digest d) := by
  have hforwarded : (v.installForwarded d now).1.inner = v.inner ∨
      (∃ entry : HeldMember, entry.digest.node = d.node ∧ entry.digest.digestSeq = d.digestSeq ∧
        (v.installForwarded d now).1.inner = v.inner.insert d.node.nodeId entry ∧
        ∀ held, v.inner.map[d.node.nodeId]? = some held → held.digest.node.nodeId = d.node.nodeId →
          Follows held.digest d) := by
    unfold installForwarded
    split
    next => exact Or.inl rfl
    next hadmits =>
      rw [Bool.not_eq_true, Option.any_eq_false] at hadmits
      refine Or.inr ⟨⟨v.keepReportedStatus d, now, .forwarded⟩, v.keepReportedStatus_node d,
        v.keepReportedStatus_digestSeq d, ?_, fun held hheld _ => follows_of_copy (hadmits held hheld)⟩
      rw [← v.keepReportedStatus_node d]
      rfl
  cases via with
  | heartbeat =>
    simp only [install, installHeartbeat]
    split
    next => exact Or.inl rfl
    next hadmits =>
      rw [Bool.not_eq_true, Option.any_eq_false] at hadmits
      refine Or.inr ⟨⟨v.keepReportedStatus d, now, .direct⟩, v.keepReportedStatus_node d,
        v.keepReportedStatus_digestSeq d, ?_, fun held hheld hid => follows_of_heartbeat hid (hadmits held hheld)⟩
      rw [← v.keepReportedStatus_node d]
      rfl
  | forwarded => exact hforwarded
  | join => exact hforwarded
  | topology =>
    simp only [install, installTopology]
    split
    next hnone =>
      exact Or.inr ⟨⟨d, now, .topology⟩, rfl, rfl, rfl, fun held hheld => by simp [hnone] at hheld⟩
    next held hheld =>
      split
      next => exact Or.inl rfl
      next hadmits =>
        refine Or.inr ⟨⟨d, held.heardAt, held.heard⟩, rfl, rfl, rfl, fun held' hheld' _ => ?_⟩
        cases Option.some.inj (hheld.symm.trans hheld')
        exact follows_of_copy (Bool.eq_false_iff.mpr hadmits)

end Records

/-- The digest arrives and is recorded, or is refused. -/
def arrive (v : DigestView) (a : Arrival) : DigestView := (v.recordVia a.via a.digest a.now).1

/-- What the view holds of the node is a digest of a birth of the chain. -/
def HoldsChain (chain : List String) (id : String) (v : DigestView) : Prop :=
  ∀ held, v.inner.map[id]? = some held → held.digest.node.nodeId = id ∧ OfChain chain held.digest.node

/-- The arrival is no digest of a birth two or more places before the one held, or is turned away. -/
def ArriveOk (chain : List String) (id : String) (v : DigestView) (a : Arrival) : Prop :=
  a.digest.node.nodeId = id → v.turnsAway a.digest a.now = false →
    (v.inner.map[id]?).all (fun held =>
      decide (birthIndex chain held.digest.node ≤ birthIndex chain a.digest.node + 1)) = true

instance (chain : List String) (id : String) (v : DigestView) (a : Arrival) : Decidable (ArriveOk chain id v a) :=
  inferInstanceAs (Decidable (_ → _ → _))

/-- The node is held still, by no earlier birth, and by no earlier word of the same birth. -/
def NotBack (chain : List String) (id : String) (v w : DigestView) : Prop :=
  ∀ held, v.inner.map[id]? = some held → ∃ held', w.inner.map[id]? = some held' ∧
    birthIndex chain held.digest.node ≤ birthIndex chain held'.digest.node ∧
    (held.digest.node.incarnation = held'.digest.node.incarnation → held.digest.digestSeq ≤ held'.digest.digestSeq)

section Chain

variable {chain : List String} {id : String} {u v w : DigestView} {a : Arrival}

theorem NotBack.of_inner (h : w.inner = v.inner) : NotBack chain id v w := by
  intro held hheld
  exact ⟨held, by rw [h]; exact hheld, Nat.le_refl _, fun _ => Nat.le_refl _⟩

theorem NotBack.trans (hu : HoldsChain chain id u) (hv : HoldsChain chain id v) (h : NotBack chain id u v)
    (h' : NotBack chain id v w) : NotBack chain id u w := by
  intro held hheld
  obtain ⟨next, hnext, hle, hseq⟩ := h held hheld
  obtain ⟨last, hlast, hle', hseq'⟩ := h' next hnext
  refine ⟨last, hlast, hle.trans hle', fun hsame => ?_⟩
  -- The same birth at both ends is the same birth in between, the places being in order.
  have hends : birthIndex chain held.digest.node = birthIndex chain last.digest.node := by
    unfold birthIndex
    rw [hsame]
  have hfirst := (hu held hheld).2.incarnation_eq (hv next hnext).2 (by omega)
  exact (hseq hfirst).trans (hseq' (hfirst.symm.trans hsame))

theorem arrive_other (hid : a.digest.node.nodeId ≠ id) : (v.arrive a).inner.map[id]? = v.inner.map[id]? := by
  unfold arrive
  rcases v.recordVia_cases a.via a.digest a.now with ⟨-, hinner⟩ | ⟨-, u, hu, harrive⟩
  · rw [hinner]
  · rw [harrive]
    rcases u.install_inner a.via a.digest a.now with hinner | ⟨entry, -, -, hinner, -⟩
    · rw [hinner, hu]
    · rw [hinner, hu, HeldMembers.insert_map, getElem?_insert_eq, if_neg hid]

theorem HoldsChain.arrive (h : HoldsChain chain id v)
    (ha : a.digest.node.nodeId = id → OfChain chain a.digest.node) : HoldsChain chain id (v.arrive a) := by
  by_cases hid : a.digest.node.nodeId = id
  · unfold DigestView.arrive
    rcases v.recordVia_cases a.via a.digest a.now with ⟨-, hinner⟩ | ⟨-, u, hu, harrive⟩
    · unfold HoldsChain
      rw [hinner]
      exact h
    · unfold HoldsChain
      rw [harrive]
      rcases u.install_inner a.via a.digest a.now with hinner | ⟨entry, hnode, -, hinner, -⟩
      · rw [hinner, hu]
        exact h
      · intro held hheld
        rw [hinner, HeldMembers.insert_map, getElem?_insert_eq, if_pos hid] at hheld
        cases Option.some.inj hheld
        rw [hnode]
        exact ⟨hid, ha hid⟩
  · unfold HoldsChain
    rw [arrive_other hid]
    exact h

/-- A digest no more than one place before the birth held never puts the node back. -/
theorem notBack_of_arriveOk (h : HoldsChain chain id v) (ha : a.digest.node.nodeId = id → OfChain chain a.digest.node)
    (hok : ArriveOk chain id v a) : NotBack chain id v (v.arrive a) := by
  by_cases hid : a.digest.node.nodeId = id
  · unfold DigestView.arrive
    rcases v.recordVia_cases a.via a.digest a.now with ⟨-, hinner⟩ | ⟨haway, u, hu, harrive⟩
    · exact NotBack.of_inner hinner
    · rw [harrive]
      rcases u.install_inner a.via a.digest a.now with hinner | ⟨entry, hnode, hseq, hinner, hfollows⟩
      · exact NotBack.of_inner (hinner.trans hu)
      · intro held hheld
        have hplace := hok hid haway
        rw [hheld] at hplace
        have hle : birthIndex chain held.digest.node ≤ birthIndex chain a.digest.node + 1 := by simpa using hplace
        obtain ⟨hheldId, hof⟩ := h held hheld
        have hf := hfollows held (by rw [hu, hid]; exact hheld) (by rw [hheldId, hid])
        refine ⟨entry, by rw [hinner, HeldMembers.insert_map, getElem?_insert_eq, if_pos hid], ?_, ?_⟩
        · rw [hnode]
          by_contra hback
          have hnext : birthIndex chain held.digest.node = birthIndex chain a.digest.node + 1 := by omega
          refine hf.other (fun hsame => hback ?_) (hof.supersedes_of_next (ha hid) hnext)
          unfold birthIndex
          rw [hsame]
        · rw [hnode, hseq]
          exact hf.later
  · intro held hheld
    exact ⟨held, by rw [arrive_other hid]; exact hheld, Nat.le_refl _, fun _ => Nat.le_refl _⟩

/-- A digest two or more places before the birth held, not turned away, puts the node back. -/
theorem arriveOk_of_notBack (hchain : chain.Nodup) (h : HoldsChain chain id v)
    (ha : a.digest.node.nodeId = id → OfChain chain a.digest.node) (hback : NotBack chain id v (v.arrive a)) :
    ArriveOk chain id v a := by
  intro hid haway
  rw [Option.all_eq_true]
  intro held hheld
  rw [decide_eq_true_eq]
  by_contra hfar
  have hof := (h held hheld).2
  obtain ⟨held', hheld', hle, -⟩ := hback held hheld
  rcases v.recordVia_cases a.via a.digest a.now with ⟨haway', -⟩ | ⟨-, u, hu, harrive⟩
  · rw [haway] at haway'
    cases haway'
  · have hinstalls : ∀ node, u.heldNode a.digest.node.nodeId = some node →
        node.incarnation ≠ a.digest.node.incarnation ∧ node.supersedes ≠ some a.digest.node.incarnation := by
      intro node hnode
      unfold heldNode at hnode
      rw [hu, hid, hheld] at hnode
      have hheldNode : held.digest.node = node := Option.some.inj hnode
      subst hheldNode
      refine ⟨fun hsame => ?_, hof.not_supersedes hchain (ha hid) (by omega)⟩
      unfold birthIndex at hfar
      rw [hsame] at hfar
      omega
    obtain ⟨d', heardAt, heard, hnode, hholds⟩ := @install_holds u a.via a.digest a.now hinstalls
    have hnow : (v.arrive a).heldNode id = some a.digest.node := by
      unfold arrive
      rw [harrive, hholds, ← hid]
      exact heldNode_hold hnode
    unfold heldNode at hnow
    rw [hheld'] at hnow
    have hlast : held'.digest.node = a.digest.node := Option.some.inj hnow
    rw [hlast] at hle
    omega

end Chain

/-- A run of arrivals at a view that holds no other birth of the node than the chain's, and hears none. -/
structure ChainRun (chain : List String) (id : String) (v : DigestView) (arrivals : List Arrival) : Prop where
  distinct : chain.Nodup
  holds : HoldsChain chain id v
  arrives : ∀ a ∈ arrivals, a.digest.node.nodeId = id → OfChain chain a.digest.node

/-- Between no two moments of the run does the node go back. -/
def NeverBack (chain : List String) (id : String) (v : DigestView) (arrivals : List Arrival) : Prop :=
  ∀ before between after, arrivals = before ++ between ++ after →
    NotBack chain id (before.foldl arrive v) ((before ++ between).foldl arrive v)

section Runs

variable {chain : List String} {id : String} {v : DigestView} {arrivals : List Arrival}

theorem HoldsChain.run (h : HoldsChain chain id v)
    (ha : ∀ a ∈ arrivals, a.digest.node.nodeId = id → OfChain chain a.digest.node) :
    HoldsChain chain id (arrivals.foldl DigestView.arrive v) :=
  List.foldlRecOn arrivals DigestView.arrive h fun _ hw a hmem => hw.arrive (ha a hmem)

theorem notBack_run (h : HoldsChain chain id v)
    (ha : ∀ a ∈ arrivals, a.digest.node.nodeId = id → OfChain chain a.digest.node)
    (hok : RunOk arrive (ArriveOk chain id) v arrivals) : NotBack chain id v (arrivals.foldl arrive v) := by
  induction arrivals generalizing v with
  | nil => exact NotBack.of_inner rfl
  | cons a rest ih =>
    have hfirst := ha a List.mem_cons_self
    have hrest := fun b hb => ha b (List.mem_cons_of_mem a hb)
    have hstep := h.arrive hfirst
    exact NotBack.trans h hstep (notBack_of_arriveOk h hfirst hok.1) (ih hstep hrest hok.2)

theorem runOk_of_neverBack (hchain : chain.Nodup) (h : HoldsChain chain id v)
    (ha : ∀ a ∈ arrivals, a.digest.node.nodeId = id → OfChain chain a.digest.node)
    (hback : NeverBack chain id v arrivals) : RunOk arrive (ArriveOk chain id) v arrivals := by
  induction arrivals generalizing v with
  | nil => trivial
  | cons a rest ih =>
    have hfirst := ha a List.mem_cons_self
    refine ⟨arriveOk_of_notBack hchain h hfirst (hback [] [a] rest rfl), ?_⟩
    refine ih (h.arrive hfirst) (fun b hb => ha b (List.mem_cons_of_mem a hb)) ?_
    intro before between after hsplit
    exact hback (a :: before) between after (by rw [hsplit]; rfl)

/-- The births a view holds of a node never go back, exactly when no arrival skips a birth backwards. -/
theorem births_never_go_back_iff (h : ChainRun chain id v arrivals) :
    NeverBack chain id v arrivals ↔ RunOk arrive (ArriveOk chain id) v arrivals := by
  constructor
  · exact runOk_of_neverBack h.distinct h.holds h.arrives
  · intro hok before between after hsplit
    subst hsplit
    have hmem := h.arrives
    simp only [List.mem_append] at hmem
    obtain ⟨hearlier, -⟩ := (runOk_append v (before ++ between) after).mp hok
    obtain ⟨-, hbetween⟩ := (runOk_append v before between).mp hearlier
    rw [List.foldl_append]
    exact notBack_run (h.holds.run fun a ha => hmem a (Or.inl (Or.inl ha)))
      (fun a ha => hmem a (Or.inl (Or.inr ha))) hbetween

/-- A node restarts twice, and the digests of its births arrive late, repeated and by every way. -/
def restartedTwice : List Arrival :=
  [⟨.heartbeat, World.digestOf "b0" none .ready 4, 0⟩, ⟨.forwarded, World.digestOf "b1" (some "b0") .ready 2, 1⟩,
    ⟨.heartbeat, World.digestOf "b0" none .ready 5, 2⟩, ⟨.topology, World.digestOf "b2" (some "b1") .ready 1, 3⟩,
    ⟨.forwarded, World.digestOf "b1" (some "b0") .ready 3, 4⟩,
    ⟨.heartbeat, World.digestOf "b2" (some "b1") .ready 3, 5⟩,
    ⟨.topology, World.digestOf "b2" (some "b1") .ready 2, 6⟩]

theorem chainRun_restartedTwice : ChainRun ["b0", "b1", "b2"] "n1" (withFloor 10 3) restartedTwice where
  distinct := by decide
  holds := by
    intro held hheld
    have hnone : (withFloor 10 3).inner.map["n1"]? = none := by decide +kernel
    rw [hnone] at hheld
    cases hheld
  arrives := by decide

theorem births_never_go_back_restartedTwice :
    RunOk arrive (ArriveOk ["b0", "b1", "b2"] "n1") (withFloor 10 3) restartedTwice ∧
      NeverBack ["b0", "b1", "b2"] "n1" (withFloor 10 3) restartedTwice := by
  have hok : RunOk arrive (ArriveOk ["b0", "b1", "b2"] "n1") (withFloor 10 3) restartedTwice := by decide +kernel
  exact ⟨hok, (births_never_go_back_iff chainRun_restartedTwice).mpr hok⟩

/-- A digest of the first birth is heard only after the third is held. -/
def delayedAcrossTwo : List Arrival :=
  [⟨.heartbeat, World.digestOf "b2" (some "b1") .ready 1, 0⟩, ⟨.heartbeat, World.digestOf "b0" none .ready 9, 1⟩]

theorem births_go_back :
    ChainRun ["b0", "b1", "b2"] "n1" (withFloor 10 3) delayedAcrossTwo ∧
      (((delayedAcrossTwo.take 1).foldl arrive (withFloor 10 3)).heldNode "n1").map MeshNode.incarnation =
        some "b2" ∧
      ((delayedAcrossTwo.foldl arrive (withFloor 10 3)).heldNode "n1").map MeshNode.incarnation = some "b0" ∧
      ¬ NeverBack ["b0", "b1", "b2"] "n1" (withFloor 10 3) delayedAcrossTwo := by
  have hrun : ChainRun ["b0", "b1", "b2"] "n1" (withFloor 10 3) delayedAcrossTwo := by
    refine ⟨by decide, ?_, by decide⟩
    exact chainRun_restartedTwice.holds
  refine ⟨hrun, by decide +kernel, by decide +kernel, fun hback => ?_⟩
  have hok := runOk_of_neverBack hrun.distinct hrun.holds hrun.arrives hback
  revert hok
  decide +kernel

end Runs

end DigestView

end DistributedMesh
