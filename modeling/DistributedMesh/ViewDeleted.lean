import DistributedMesh.ViewCalls

namespace DistributedMesh

open GuardedRuns
open KeyedMaps

namespace DigestView

theorem isDeletedAt_iff {v : DigestView} {n : String} {now : Nat} :
    v.isDeletedAt n now = true ↔ ∃ e, v.deleted[n]? = some e ∧ now - e.2 < v.retention := by
  unfold isDeletedAt
  rw [← Std.ExtTreeMap.mem_iff_contains, mem_iff_getElem?]
  constructor
  · rintro ⟨e, he⟩
    rw [expireDeletedAt_deleted, Option.filter_eq_some_iff] at he
    exact ⟨e, he.1, of_decide_eq_true he.2⟩
  · rintro ⟨e, he, hr⟩
    refine ⟨e, ?_⟩
    rw [expireDeletedAt_deleted, Option.filter_eq_some_iff]
    exact ⟨he, decide_eq_true hr⟩

/-- Nothing of a node is held: no member, no projected birth, no stop and no overlay. -/
structure Absent (v : DigestView) (n : String) : Prop where
  member : v.inner.map[n]? = none
  projected : v.projected[n]? = none
  mark : v.stoppedMarks[n]? = none
  overlay : ∀ o ∈ v.inFlight, o.nodeId ≠ n

/-- No departure held has a member, a stop or an overlay of its node left; one within the retention
has no projected birth of it either. -/
structure Barrier (v : DigestView) (now : Nat) : Prop where
  member : ∀ (n : String) e, v.deleted[n]? = some e → v.inner.map[n]? = none
  mark : ∀ (n : String) e, v.deleted[n]? = some e → v.stoppedMarks[n]? = none
  overlay : ∀ (n : String) e, v.deleted[n]? = some e → ∀ o ∈ v.inFlight, o.nodeId ≠ n
  projected : ∀ (n : String) e, v.deleted[n]? = some e → now - e.2 < v.retention → v.projected[n]? = none

/-- A projected birth is held of no node deleted within the retention, and a node departs when none
of its overlays is open but its stops and the departure's own. -/
def StepOk (v : DigestView) (now : Nat) : ViewCall → Prop
  | .holdProjected d => v.isDeletedAt d.node.nodeId now = false
  | .depart op => v.isDeletedAt op.nodeId now = true ∨
      ∀ o ∈ v.inFlight, o.nodeId = op.nodeId → o.isStop = true ∨ o.key = op.key
  | _ => True

/-- `w` holds of a node nothing that `v` did not. -/
structure AddsNothing (v w : DigestView) (n : String) : Prop where
  member : v.inner.map[n]? = none → w.inner.map[n]? = none
  projected : v.projected[n]? = none → w.projected[n]? = none
  mark : v.stoppedMarks[n]? = none → w.stoppedMarks[n]? = none
  overlay : ∀ o ∈ w.inFlight, o.nodeId = n → o ∈ v.inFlight

section Adds

variable {now : Nat} {u v w : DigestView} {n : String} {op : LifecycleOp}

theorem Absent.after (h : v.Absent n) (ha : AddsNothing v w n) : w.Absent n :=
  ⟨ha.member h.member, ha.projected h.projected, ha.mark h.mark,
    fun o ho hn => h.overlay o (ha.overlay o ho hn) hn⟩

namespace AddsNothing

theorem trans (h : AddsNothing u v n) (h' : AddsNothing v w n) : AddsNothing u w n :=
  ⟨fun hu => h'.member (h.member hu), fun hu => h'.projected (h.projected hu), fun hu => h'.mark (h.mark hu),
    fun o ho hn => h.overlay o (h'.overlay o ho hn) hn⟩

theorem touched (h : Touches now v w) : AddsNothing v w n :=
  ⟨h.member_none, h.projected_none, h.mark_none, fun _ ho _ => h.inFlight ▸ ho⟩

theorem endStop (v : DigestView) (id : String) : AddsNothing v (v.endStop id) n := by
  refine ⟨fun hv => hv, fun hv => hv, fun hv => ?_, fun o ho _ => (mem_endStop.mp ho).1⟩
  rw [endStop_marks]
  split
  next => rfl
  next => exact hv

theorem cleared {id : String} (h : Cleared now v id w) : AddsNothing v w n := by
  rcases h with h | ⟨x, m, hx, -, rfl⟩
  · exact touched h
  · exact (touched hx).trans (endStop x id)

theorem erased {β : Type} {m : Std.ExtTreeMap String β} {id : String} (h : m[n]? = none) :
    (m.erase id)[n]? = none := by
  rw [getElem?_erase_eq]
  split
  next => rfl
  next => exact h

theorem inserted {β : Type} {m : Std.ExtTreeMap String β} {id : String} {b : β} (hne : id ≠ n) (h : m[n]? = none) :
    (m.insert id b)[n]? = none := by
  rw [getElem?_insert_eq, if_neg hne]
  exact h

theorem put (v : DigestView) (hne : op.nodeId ≠ n) : AddsNothing v { v with inFlight := v.inFlight.put op } n := by
  refine ⟨fun hv => hv, fun hv => hv, fun hv => hv, fun o ho hn => ?_⟩
  rcases OpenOverlays.mem_put.mp ho with rfl | ⟨ho, -⟩
  · exact absurd hn hne
  · exact ho

theorem stop (v : DigestView) (mark : StopMark) (hne : op.nodeId ≠ n) : AddsNothing v (v.stop op mark) n := by
  refine ⟨erased, erased, inserted hne, fun o ho hn => ?_⟩
  rcases OpenOverlays.mem_put.mp ho with rfl | ⟨ho, -⟩
  · exact absurd hn hne
  · exact ho

theorem leave (v : DigestView) (op : LifecycleOp) (now : Nat) : AddsNothing v (v.leave op now) n := by
  refine ⟨erased, erased, fun hv => ?_, fun o ho _ => (mem_leave.mp ho).1.1⟩
  exact (endStop { v with deleted := _, recovering := _ } op.nodeId).mark hv

theorem leaveQuietly (v : DigestView) (op : LifecycleOp) (now : Nat) : AddsNothing v (v.leaveQuietly op now) n := by
  refine ⟨erased, erased, fun hv => ?_, fun o ho _ => (mem_leaveQuietly.mp ho).1.1⟩
  exact (endStop { v with deleted := _ } op.nodeId).mark hv

theorem leaves (h : Leaves now v w) : AddsNothing v w n := by
  induction h with
  | refl => exact touched (Touches.refl now v)
  | touched _ ht ih => exact ih.trans (touched ht)
  | @left u op _ _ ih => exact ih.trans (leaveQuietly u op now)

theorem rejoined {id : String} (hne : id ≠ n) (h : Touches now (v.endStop id) w ∨
    ∃ entry, Touches now ((v.endStop id).rehold id entry) w) :
    AddsNothing v w n := by
  refine (endStop v id).trans ?_
  rcases h with ht | ⟨entry, ht⟩
  · exact touched ht
  · have hinsert : AddsNothing (v.endStop id) ((v.endStop id).rehold id entry) n :=
      ⟨inserted hne, fun hv => hv, fun hv => hv, fun _ ho _ => ho⟩
    exact hinsert.trans (touched ht)

/-- A call adds nothing of a node it does not name. -/
theorem moves {call : ViewCall} (h : Moves now v call w) (hn : n ∉ call.names) : AddsNothing v w n := by
  cases h with
  | touched h => exact touched h
  | stopEnded h => exact cleared h
  | @held via d d' u heardAt heard h _ _ hnode =>
    have hne : d'.node.nodeId ≠ n := by
      rw [hnode]
      exact fun he => hn (List.mem_singleton.mpr he.symm)
    exact (cleared h).trans ⟨inserted hne, fun hv => hv, fun hv => hv, fun _ ho _ => ho⟩
  | @projected d e =>
    have hne : d.node.nodeId ≠ n := fun he => hn (List.mem_singleton.mpr he.symm)
    exact ⟨fun hv => hv, inserted hne, fun hv => hv, fun _ ho _ => ho⟩
  | opened h _ => exact (touched h).trans (put _ fun he => hn (List.mem_singleton.mpr he.symm))
  | stopped h _ _ _ _ => exact (touched h).trans (stop _ _ fun he => hn (List.mem_singleton.mpr he.symm))
  | rejoined hid _ h => exact rejoined (fun he => hn (he ▸ hid)) h
  | departed h _ => exact (touched h).trans (leave _ _ now)
  | meshLeft h => exact leaves h
  | concluded _ => exact ⟨fun hv => hv, fun hv => hv, fun hv => hv, fun o ho _ => (mem_endOverlays.mp ho).1⟩

end AddsNothing

namespace Barrier

/-- What holds of a departure while nothing of its node is added. -/
theorem spares {e : LifecycleOp × Nat} (h : v.Barrier now) (ha : AddsNothing v w n) (he : v.deleted[n]? = some e) :
    w.inner.map[n]? = none ∧ w.stoppedMarks[n]? = none ∧ (∀ o ∈ w.inFlight, o.nodeId ≠ n) ∧
      (now - e.2 < v.retention → w.projected[n]? = none) :=
  ⟨ha.member (h.member n e he), ha.mark (h.mark n e he),
    fun o ho hn => h.overlay n e he o (ha.overlay o ho hn) hn, fun hr => ha.projected (h.projected n e he hr)⟩

/-- A view with the departures of `v` keeps the barrier where it adds nothing of a deleted node. -/
theorem kept (h : v.Barrier now) (hret : w.retention = v.retention)
    (hdel : ∀ (n : String) e, w.deleted[n]? = some e → v.deleted[n]? = some e)
    (ha : ∀ (n : String) e, w.deleted[n]? = some e → AddsNothing v w n) : w.Barrier now where
  member n e he := (h.spares (ha n e he) (hdel n e he)).1
  mark n e he := (h.spares (ha n e he) (hdel n e he)).2.1
  overlay n e he := (h.spares (ha n e he) (hdel n e he)).2.2.1
  projected n e he hr := (h.spares (ha n e he) (hdel n e he)).2.2.2 (hret ▸ hr)

theorem touched (h : v.Barrier now) (ht : Touches now v w) : w.Barrier now :=
  h.kept ht.retention ht.deleted fun _ _ _ => AddsNothing.touched ht

theorem cleared {id : String} (h : v.Barrier now) (hc : Cleared now v id w) : w.Barrier now := by
  rcases hc with ht | ⟨x, m, hx, -, rfl⟩
  · exact h.touched ht
  · exact (h.touched hx).kept rfl (fun _ _ he => he) fun _ _ _ => AddsNothing.endStop x id

/-- A node that leaves with nothing of it left is held deleted behind the barrier. -/
theorem left (h : v.Barrier now) (hret : w.retention = v.retention)
    (hdel : w.deleted = v.deleted.insert op.nodeId (op, now)) (ha : ∀ n, AddsNothing v w n)
    (hself : w.Absent op.nodeId) : w.Barrier now := by
  have hother : ∀ (n : String) e, w.deleted[n]? = some e → n = op.nodeId ∨ v.deleted[n]? = some e := by
    intro n e he
    rw [hdel, getElem?_insert_eq] at he
    split at he
    next hn => exact Or.inl hn.symm
    next => exact Or.inr he
  constructor
  · intro n e he
    rcases hother n e he with rfl | hv
    · exact hself.member
    · exact (h.spares (ha n) hv).1
  · intro n e he
    rcases hother n e he with rfl | hv
    · exact hself.mark
    · exact (h.spares (ha n) hv).2.1
  · intro n e he
    rcases hother n e he with rfl | hv
    · exact hself.overlay
    · exact (h.spares (ha n) hv).2.2.1
  · intro n e he hr
    rcases hother n e he with rfl | hv
    · exact hself.projected
    · exact (h.spares (ha n) hv).2.2.2 (hret ▸ hr)

theorem erase_self {β : Type} (m : Std.ExtTreeMap String β) (id : String) : (m.erase id)[id]? = none := by
  rw [getElem?_erase_eq, if_pos rfl]

theorem leave (h : u.Barrier now)
    (hop : ∀ o ∈ u.inFlight, o.nodeId = op.nodeId → o.isStop = true ∨ o.key = op.key) :
    (u.leave op now).Barrier now := by
  refine h.left rfl rfl (fun _ => AddsNothing.leave u op now) ⟨erase_self _ _, erase_self _ _, erase_self _ _, ?_⟩
  intro o ho hn
  obtain ⟨⟨ho, hstop⟩, hkey⟩ := mem_leave.mp ho
  rcases hop o ho hn with his | hsame
  · exact hstop ⟨his, hn⟩
  · exact hkey hsame

theorem leaveQuietly (h : u.Barrier now) : (u.leaveQuietly op now).Barrier now := by
  refine h.left rfl rfl (fun _ => AddsNothing.leaveQuietly u op now) ⟨erase_self _ _, erase_self _ _, erase_self _ _, ?_⟩
  intro o ho
  exact (mem_leaveQuietly.mp ho).2

theorem leaves (h : v.Barrier now) (hl : Leaves now v w) : w.Barrier now := by
  induction hl with
  | refl => exact h
  | touched _ ht ih => exact ih.touched ht
  | left _ _ ih => exact ih.leaveQuietly

theorem rejoined {id : String} {m : StopMark} (h : v.Barrier now) (hm : v.stoppedMarks[id]? = some m)
    (hr : Touches now (v.endStop id) w ∨
      ∃ entry, Touches now ((v.endStop id).rehold id entry) w) :
    w.Barrier now := by
  have hdel : ∀ (n : String) e, w.deleted[n]? = some e → v.deleted[n]? = some e := by
    intro n e he
    rcases hr with ht | ⟨entry, ht⟩
    · exact ht.deleted n e he
    · exact ht.deleted n e he
  refine h.kept ?_ hdel ?_
  · rcases hr with ht | ⟨entry, ht⟩
    · exact ht.retention
    · exact ht.retention
  · intro n e he
    refine AddsNothing.rejoined ?_ hr
    rintro rfl
    -- A stopped node is held deleted by no departure.
    have hmark := h.mark id e (hdel id e he)
    rw [hm] at hmark
    simp at hmark

/-- A call that meets its condition keeps the barrier. -/
theorem moves {call : ViewCall} (h : v.Barrier now) (hm : Moves now v call w) (hok : v.StepOk now call) :
    w.Barrier now := by
  cases hm with
  | touched ht => exact h.touched ht
  | stopEnded hc => exact h.cleared hc
  | @held via d d' u heardAt heard hc hdel _ hnode =>
    refine (h.cleared hc).kept rfl (fun _ _ he => he) ?_
    intro n e he
    have hne : d'.node.nodeId ≠ n := by
      rw [hnode]
      rintro rfl
      have hsome : u.deleted[d.node.nodeId]? = some e := he
      rw [hdel] at hsome
      simp at hsome
    exact ⟨AddsNothing.inserted hne, fun hv => hv, fun hv => hv, fun _ ho _ => ho⟩
  | @projected d e =>
    refine ⟨h.member, h.mark, h.overlay, ?_⟩
    intro n e' he hr
    have hne : d.node.nodeId ≠ n := by
      rintro rfl
      have hdel : v.isDeletedAt d.node.nodeId now = true := isDeletedAt_iff.mpr ⟨e', he, hr⟩
      have hno : v.isDeletedAt d.node.nodeId now = false := hok
      rw [hdel] at hno
      simp at hno
    exact AddsNothing.inserted hne (h.projected n e' he hr)
  | @opened op u ht ho =>
    refine (h.touched ht).kept rfl (fun _ _ he => he) ?_
    intro n e he
    refine AddsNothing.put u ?_
    rintro rfl
    have hsome : u.deleted[op.nodeId]? = some e := he
    rw [ho.deleted] at hsome
    simp at hsome
  | @stopped op carried u mark ht ho _ _ _ =>
    refine (h.touched ht).kept rfl (fun _ _ he => he) ?_
    intro n e he
    refine AddsNothing.stop u mark ?_
    rintro rfl
    have hsome : u.deleted[op.nodeId]? = some e := he
    rw [ho.deleted] at hsome
    simp at hsome
  | rejoined _ hm hr => exact h.rejoined hm hr
  | @departed op u ht hdel =>
    refine (h.touched ht).leave ?_
    rw [ht.inFlight]
    rcases hok with hheld | hop
    · obtain ⟨e, he, hr⟩ := isDeletedAt_iff.mp hheld
      rw [ht.standing op.nodeId e he hr] at hdel
      simp at hdel
    · exact hop
  | meshLeft hl => exact h.leaves hl
  | concluded hgone =>
    exact h.kept rfl (fun _ _ he => he) fun _ _ _ =>
      ⟨fun hv => hv, fun hv => hv, fun hv => hv, fun o ho _ => (mem_endOverlays.mp ho).1⟩

theorem later {t : Nat} (h : v.Barrier now) (ht : now ≤ t) : v.Barrier t where
  member := h.member
  mark := h.mark
  overlay := h.overlay
  projected n e he hr := h.projected n e he (by omega)

end Barrier

end Adds

end DigestView

namespace World

/-- A view that holds nothing yet. -/
def fresh (retention stalenessFloor now : Nat) : World := ⟨.withFloor retention stalenessFloor, now⟩

/-- The node is held deleted within the retention. -/
def HoldsDeleted (w : World) (n : String) : Prop := w.view.isDeletedAt n w.now = true

def StepOk (w : World) (call : ViewCall) : Prop := w.view.StepOk w.now call

def Barred (w : World) : Prop := w.view.Barrier w.now

theorem barred_fresh (retention stalenessFloor now : Nat) : (fresh retention stalenessFloor now).Barred := by
  have hnone : ∀ (n : String) e, (fresh retention stalenessFloor now).view.deleted[n]? ≠ some e := by
    intro n e he
    simp [fresh, DigestView.withFloor] at he
  exact ⟨fun n e he => absurd he (hnone n e), fun n e he => absurd he (hnone n e),
    fun n e he => absurd he (hnone n e), fun n e he => absurd he (hnone n e)⟩

theorem Barred.step (w : World) (call : ViewCall) (h : w.Barred) (hok : w.StepOk call) : (w.step call).Barred := by
  have hmoved := h.moves (w.view.call_moves w.now call) hok
  rw [← step_view] at hmoved
  exact hmoved.later (w.now_le_step call)

theorem absent_run {w : World} {calls : List ViewCall} {n : String} (h : w.view.Absent n)
    (hn : ∀ call ∈ calls, n ∉ call.names) : (w.run calls).view.Absent n := by
  induction calls generalizing w with
  | nil => exact h
  | cons call calls ih =>
    have hadds := DigestView.AddsNothing.moves (w.view.call_moves w.now call) (hn call List.mem_cons_self)
    rw [← step_view] at hadds
    exact ih (h.after hadds) fun c hc => hn c (List.mem_cons_of_mem _ hc)

/-- Wherever a node is held deleted within the retention, nothing of it is held, and whenever its
retention ends nothing of it comes back before a message names it: in every run that projects no
deleted node and departs none with another removal of it open. -/
theorem deleted_node_absent (retention stalenessFloor now : Nat) (before after : List ViewCall) (n : String)
    (hok : RunOk step StepOk (fresh retention stalenessFloor now) (before ++ after))
    (hdel : ((fresh retention stalenessFloor now).run before).HoldsDeleted n) :
    ((fresh retention stalenessFloor now).run before).view.Absent n ∧
      ((∀ call ∈ after, n ∉ call.names) →
        ((fresh retention stalenessFloor now).run (before ++ after)).view.Absent n) := by
  obtain ⟨hbefore, -⟩ := (runOk_append _ before after).mp hok
  have hbarrier : ((fresh retention stalenessFloor now).run before).Barred :=
    hbefore.invariant Barred.step (barred_fresh retention stalenessFloor now)
  obtain ⟨e, he, hr⟩ := DigestView.isDeletedAt_iff.mp hdel
  have habsent : ((fresh retention stalenessFloor now).run before).view.Absent n :=
    ⟨hbarrier.member n e he, hbarrier.projected n e he hr, hbarrier.mark n e he, hbarrier.overlay n e he⟩
  refine ⟨habsent, fun hn => ?_⟩
  rw [run_append]
  exact absent_run habsent hn

/-- A digest of the birth `incarnation` of node `n1`. -/
def digestOf (incarnation : String) (supersedes : Option String) (status : NodeStatus) (digestSeq : Nat) : MeshDigest :=
  { fabricId := "f", status := status, adminApiBase := none, digestSeq := digestSeq, emittedAtRafkaMs := 0
    dataDir := none, meshId := none, inFlight := none, load := none, gossip := none, isPrimary := none
    isFabricPrimary := none
    node :=
      { mesh := "mesh2", type := "worker", nodeId := "n1", path := "p", name := "a", endpointId := "k"
        transportAddr := "t", incarnation := incarnation, supersedes := supersedes, runtime := none } }

/-- An operation of a Build on the birth `incarnation` of node `n1`. -/
def opOf (action buildId incarnation : String) : LifecycleOp :=
  { type := "worker", buildId := buildId, operation := .mk action (some (.node "n1")) none none, nodeId := "n1"
    incarnation := incarnation, path := "p", name := "a", mesh := "mesh2", eventAtRafkaMs := 0
    traceparent := none, tracestate := none }

/-- A member whose removal opens and completes, and whose late digest is refused. -/
theorem deleted_node_absent_removed :
    let before := [.record .heartbeat (digestOf "b1" none .ready 1), .deleting (opOf "node.delete" "build1" "b1"),
      .depart (opOf "node.delete" "build1" "b1"), .record .heartbeat (digestOf "b1" none .ready 2)]
    let after := [.elapse 10, .expireDeleted]
    ((fresh 10 3 0).run before).HoldsDeleted "n1" ∧ ¬ ((fresh 10 3 0).run (before ++ after)).HoldsDeleted "n1" ∧
      ((fresh 10 3 0).run (before ++ after)).view.Absent "n1" := by
  intro before after
  have hdel : ((fresh 10 3 0).run before).HoldsDeleted "n1" := by
    unfold HoldsDeleted
    decide +kernel
  have hgone : ¬ ((fresh 10 3 0).run (before ++ after)).HoldsDeleted "n1" := by
    unfold HoldsDeleted
    decide +kernel
  have hdepart : ∀ o ∈ ((fresh 10 3 0).run (before.take 2)).view.inFlight, o.nodeId = "n1" →
      o.isStop = true ∨ o.key = (opOf "node.delete" "build1" "b1").key := by
    intro o ho
    have hlist : ∀ o ∈ ((fresh 10 3 0).run (before.take 2)).view.inFlight.list, o.nodeId = "n1" →
        o.isStop = true ∨ o.key = (opOf "node.delete" "build1" "b1").key := by decide +kernel
    exact hlist o (OpenOverlays.mem_list.mpr ho)
  have hok : RunOk step StepOk (fresh 10 3 0) (before ++ after) :=
    ⟨trivial, trivial, Or.inr hdepart, trivial, trivial, trivial, trivial⟩
  exact ⟨hdel, hgone, (deleted_node_absent 10 3 0 before after "n1" hok hdel).2 (by decide)⟩

/-- A projection lists a node after its departure. -/
def projectedDeleted : World :=
  (fresh 10 3 0).run [.depart (opOf "node.delete" "build1" "b1"), .holdProjected (digestOf "b1" none .ready 1)]

/-- A node departs by one Build while another's removal of it is open. -/
def departedUnderRemoval : World :=
  (fresh 10 3 0).run [.deleting (opOf "node.delete" "build1" "b1"), .depart (opOf "node.delete" "build2" "b1")]

theorem deleted_node_present :
    (projectedDeleted.HoldsDeleted "n1" ∧ ¬ projectedDeleted.view.Absent "n1") ∧
      (departedUnderRemoval.HoldsDeleted "n1" ∧ ¬ departedUnderRemoval.view.Absent "n1") := by
  unfold HoldsDeleted
  refine ⟨⟨by decide +kernel, fun h => ?_⟩, ⟨by decide +kernel, fun h => ?_⟩⟩
  · have hprojected : projectedDeleted.view.projected.contains "n1" = true := by decide +kernel
    exact not_mem_of_lookup h.projected (Std.ExtTreeMap.contains_iff_mem.mp hprojected)
  · have hopen : opOf "node.delete" "build1" "b1" ∈ departedUnderRemoval.view.inFlight.list := by decide +kernel
    exact h.overlay _ (OpenOverlays.mem_list.mp hopen) rfl

end World

end DistributedMesh
