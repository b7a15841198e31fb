import Mathlib.Data.List.Infix
import DistributedMesh.ViewDeleted

namespace DistributedMesh

open GuardedRuns
open KeyedMaps
open Std (ExtTreeSet)

theorem LifecycleOp.key_of_identity {a b : LifecycleOp} (h : a.identity = b.identity) : a.key = b.key := by
  have hbuild : a.buildId = b.buildId := congrArg LifecycleIdentity.buildId h
  have hop : a.operation = b.operation := congrArg LifecycleIdentity.operation h
  unfold LifecycleOp.key
  rw [hbuild, hop]

/-- One overlay is open under a key. -/
theorem OpenOverlays.eq_of_key {o : OpenOverlays} {a b : LifecycleOp} (ha : a ∈ o) (hb : b ∈ o)
    (h : a.key = b.key) : a = b := by
  rw [OpenOverlays.mem_def] at ha hb
  rw [h] at ha
  exact Option.some.inj (ha.symm.trans hb)

namespace DigestView

/-- The identities of the open overlays. -/
def openIds (v : DigestView) : List LifecycleIdentity := v.inFlight.list.map LifecycleOp.identity

theorem mem_openIds {v : DigestView} {i : LifecycleIdentity} :
    i ∈ v.openIds ↔ ∃ o ∈ v.inFlight, o.identity = i := by
  simp only [openIds, List.mem_map, OpenOverlays.mem_list]

/-- The overlay of `op` would open: its birth is not held deleted, and its identity neither ended here
nor is open. -/
def Opening (v : DigestView) (now : Nat) (op : LifecycleOp) : Prop :=
  v.isDeletedAt op.nodeId now = false ∧ op.identity ∉ v.endedOverlays ∧ op.identity ∉ v.openIds

/-- The stop `op` would be taken: it opens, and is neither the holder's own nor of another birth than
the one held. -/
def TakesStop (v : DigestView) (now : Nat) (op : LifecycleOp) : Prop :=
  v.Opening now op ∧ v.own ≠ some op.nodeId ∧
    ∀ d, v.heldDigest op.nodeId = some d → d.node.incarnation = op.incarnation

/-- No overlay that closed without a record opens again. A stop is taken of no node already marked,
but for the same birth with no digest kept, under no other overlay's key; a removal that is a stop is
of a birth marked so; and a departure's operation is no stop of another node. -/
def MarksOk (v : DigestView) (now : Nat) (dropped : List LifecycleIdentity) : ViewCall → Prop
  | .deleting op => v.Opening now op → op.identity ∉ dropped ∧
      (op.isStop = true → v.inFlight.map[op.key]? = none ∧ v.holdsStopped op.nodeId op.incarnation = true)
  | .stopped op _ => v.TakesStop now op → op.identity ∉ dropped ∧ op.isStop = true ∧
      v.inFlight.map[op.key]? = none ∧
      ∀ m, v.stoppedMarks[op.nodeId]? = some m → m.incarnation = op.incarnation ∧ m.held = none ∧ m.latest = none
  | .depart op => v.isDeletedAt op.nodeId now = false → op.isStop = true →
      ∀ o ∈ v.inFlight, o.key = op.key → o.nodeId = op.nodeId
  | _ => True

/-- Marks and open stops name the same births, none of them held, and no ended overlay is open. -/
structure Agree (v : DigestView) : Prop where
  marked : ∀ (n : String) m, v.stoppedMarks[n]? = some m →
    ∃ o ∈ v.inFlight, o.isStop = true ∧ o.nodeId = n ∧ o.incarnation = m.incarnation
  overlaid : ∀ o ∈ v.inFlight, o.isStop = true →
    ∃ m, v.stoppedMarks[o.nodeId]? = some m ∧ m.incarnation = o.incarnation
  unheld : ∀ (n : String) m, v.stoppedMarks[n]? = some m → v.inner.map[n]? = none
  closed : ∀ i ∈ v.endedOverlays, i ∉ v.openIds

section Ended

variable {now : Nat} {u v w : DigestView}

theorem mem_foldl_insert (ops : List LifecycleOp) (ended : ExtTreeSet LifecycleIdentity identityCode.cmp)
    (i : LifecycleIdentity) : i ∈ ops.foldl (fun ended o => ended.insert o.identity) ended ↔
      i ∈ ended ∨ ∃ o ∈ ops, o.identity = i := by
  induction ops generalizing ended with
  | nil => simp
  | cons op ops ih =>
    rw [List.foldl_cons, ih, ExtTreeSet.mem_insert]
    simp only [Std.LawfulEqCmp.compare_eq_iff_eq, List.mem_cons, exists_eq_or_imp]
    rw [or_comm (a := op.identity = i), or_assoc]

theorem mem_ended_endOverlays {gone : LifecycleOp → Bool} {i : LifecycleIdentity} :
    i ∈ (v.endOverlays gone).endedOverlays ↔
      i ∈ v.endedOverlays ∨ ∃ o ∈ v.inFlight, gone o = true ∧ o.identity = i := by
  unfold endOverlays
  rw [mem_foldl_insert]
  simp only [List.mem_filter, OpenOverlays.mem_list, and_assoc]

/-- What opens again after some overlays end was open and did not end. -/
theorem mem_openIds_endOverlays {gone : LifecycleOp → Bool} {i : LifecycleIdentity} :
    i ∈ (v.endOverlays gone).openIds ↔ ∃ o ∈ v.inFlight, gone o = false ∧ o.identity = i := by
  simp only [mem_openIds, mem_endOverlays, and_assoc]

end Ended

namespace Agree

variable {now : Nat} {u v w : DigestView} {op : LifecycleOp}

theorem touched (h : v.Agree) (ht : Touches now v w) : w.Agree := by
  have hmark : ∀ (n : String) m, w.stoppedMarks[n]? = some m →
      ∃ m₀, v.stoppedMarks[n]? = some m₀ ∧ m.incarnation = m₀.incarnation := by
    intro n m hm
    have hrel := ht.marks n
    rw [hm] at hrel
    cases hv : v.stoppedMarks[n]? with
    | none =>
      rw [hv] at hrel
      cases hrel
    | some m₀ =>
      rw [hv] at hrel
      cases hrel with
      | some hk => exact ⟨m₀, rfl, hk.incarnation⟩
  constructor
  · intro n m hm
    obtain ⟨m₀, hm₀, hinc⟩ := hmark n m hm
    rw [ht.inFlight, hinc]
    exact h.marked n m₀ hm₀
  · intro o ho hstop
    rw [ht.inFlight] at ho
    obtain ⟨m₀, hm₀, hinc⟩ := h.overlaid o ho hstop
    have hrel := ht.marks o.nodeId
    rw [hm₀] at hrel
    cases hw : w.stoppedMarks[o.nodeId]? with
    | none =>
      rw [hw] at hrel
      cases hrel
    | some m =>
      rw [hw] at hrel
      cases hrel with
      | some hk => exact ⟨m, rfl, hk.incarnation.trans hinc⟩
  · intro n m hm
    obtain ⟨m₀, hm₀, -⟩ := hmark n m hm
    exact ht.member_none (h.unheld n m₀ hm₀)
  · intro i hi
    rw [ht.ended] at hi
    unfold openIds
    rw [ht.inFlight]
    exact h.closed i hi

/-- What ended is not open. -/
theorem closed_endOverlays (h : ∀ i ∈ v.endedOverlays, i ∉ v.openIds) (gone : LifecycleOp → Bool) :
    ∀ i ∈ (v.endOverlays gone).endedOverlays, i ∉ (v.endOverlays gone).openIds := by
  intro i hi hopen
  obtain ⟨o, ho, hkept, hid⟩ := mem_openIds_endOverlays.mp hopen
  rcases mem_ended_endOverlays.mp hi with hold | ⟨o', ho', hgone, hid'⟩
  · exact h i hold (mem_openIds.mpr ⟨o, ho, hid⟩)
  · have hkey := LifecycleOp.key_of_identity (hid.trans hid'.symm)
    rw [OpenOverlays.eq_of_key ho ho' hkey, hgone] at hkept
    simp at hkept

theorem endStop (h : v.Agree) (id : String) : (v.endStop id).Agree := by
  have hmark : ∀ (n : String) m, (v.endStop id).stoppedMarks[n]? = some m → id ≠ n ∧ v.stoppedMarks[n]? = some m := by
    intro n m hm
    rw [endStop_marks] at hm
    split at hm
    next => simp at hm
    next hne => exact ⟨hne, hm⟩
  constructor
  · intro n m hm
    obtain ⟨hne, hv⟩ := hmark n m hm
    obtain ⟨o, ho, hstop, hn, hinc⟩ := h.marked n m hv
    exact ⟨o, mem_endStop.mpr ⟨ho, fun hgone => hne (hgone.2.symm.trans hn)⟩, hstop, hn, hinc⟩
  · intro o ho hstop
    obtain ⟨ho, hkept⟩ := mem_endStop.mp ho
    rw [endStop_marks, if_neg fun he => hkept ⟨hstop, he.symm⟩]
    exact h.overlaid o ho hstop
  · intro n m hm
    exact h.unheld n m (hmark n m hm).2
  · have hclosed : ∀ i ∈ (v.unmark id).endedOverlays, i ∉ (v.unmark id).openIds := h.closed
    exact closed_endOverlays hclosed _

theorem cleared {id : String} (h : v.Agree) (hc : Cleared now v id w) : w.Agree := by
  rcases hc with ht | ⟨x, m, hx, -, rfl⟩
  · exact h.touched ht
  · exact (h.touched hx).endStop id

/-- A view with the overlays and stops of `v` agrees where the members it adds are not marked. -/
theorem held (h : v.Agree) (hmarks : w.stoppedMarks = v.stoppedMarks) (hflight : w.inFlight = v.inFlight)
    (hended : w.endedOverlays = v.endedOverlays)
    (hinner : ∀ (n : String) m, v.stoppedMarks[n]? = some m → v.inner.map[n]? = none → w.inner.map[n]? = none) :
    w.Agree := by
  constructor
  · rw [hmarks, hflight]
    exact h.marked
  · rw [hmarks, hflight]
    exact h.overlaid
  · rw [hmarks]
    intro n m hm
    exact hinner n m hm (h.unheld n m hm)
  · unfold openIds
    rw [hended, hflight]
    exact h.closed

theorem rejoined {id : String} (h : v.Agree) (hr : Touches now (v.endStop id) w ∨
    ∃ entry, Touches now ((v.endStop id).rehold id entry) w) : w.Agree := by
  have hended := h.endStop id
  rcases hr with ht | ⟨entry, ht⟩
  · exact hended.touched ht
  · have hreheld : ((v.endStop id).rehold id entry).Agree := by
      refine hended.held rfl rfl rfl ?_
      intro n m hm hnone
      have hne : id ≠ n := by
        rintro rfl
        rw [endStop_marks, if_pos rfl] at hm
        simp at hm
      exact AddsNothing.inserted hne hnone
    exact hreheld.touched ht

/-- What an overlay put keeps: the others but one under its key. -/
theorem closed_put (h : v.Agree) (hended : op.identity ∉ v.endedOverlays) :
    ∀ i ∈ v.endedOverlays, i ∉ ({ v with inFlight := v.inFlight.put op } : DigestView).openIds := by
  intro i hi hopen
  obtain ⟨o, ho, hid⟩ := mem_openIds.mp hopen
  rcases OpenOverlays.mem_put.mp ho with rfl | ⟨ho, -⟩
  · exact hended (hid ▸ hi)
  · exact h.closed i hi (mem_openIds.mpr ⟨o, ho, hid⟩)

/-- A removal opens; one that is a stop is of a birth marked so. -/
theorem opened (h : v.Agree) (hended : op.identity ∉ v.endedOverlays)
    (hstop : op.isStop = true → v.inFlight.map[op.key]? = none ∧ v.holdsStopped op.nodeId op.incarnation = true) :
    ({ v with inFlight := v.inFlight.put op } : DigestView).Agree := by
  refine ⟨?_, ?_, h.unheld, h.closed_put hended⟩
  · intro n m hm
    obtain ⟨o, ho, his, hn, hinc⟩ := h.marked n m hm
    refine ⟨o, OpenOverlays.mem_put.mpr (Or.inr ⟨ho, fun hkey => ?_⟩), his, hn, hinc⟩
    -- A stop is under no removal's key, and no overlay is under this stop's.
    have hop := (hstop ((LifecycleOp.isStop_of_key hkey).symm.trans his)).1
    rw [OpenOverlays.mem_def, hkey, hop] at ho
    simp at ho
  · intro o ho his
    rcases OpenOverlays.mem_put.mp ho with rfl | ⟨ho, -⟩
    · exact holdsStopped_iff.mp (hstop his).2
    · exact h.overlaid o ho his

/-- A stop is taken of a node not marked, or marked for the same birth. -/
theorem stop {mark : StopMark} (h : v.Agree) (hended : op.identity ∉ v.endedOverlays) (hstop : op.isStop = true)
    (hkey : v.inFlight.map[op.key]? = none) (hinc : mark.incarnation = op.incarnation)
    (hmark : ∀ m, v.stoppedMarks[op.nodeId]? = some m → m.incarnation = op.incarnation) :
    (v.stop op mark).Agree := by
  have hmarks : ∀ n : String, (v.stop op mark).stoppedMarks[n]? =
      if op.nodeId = n then some mark else v.stoppedMarks[n]? :=
    fun n => getElem?_insert_eq v.stoppedMarks op.nodeId mark n
  constructor
  · intro n m hm
    rw [hmarks] at hm
    split at hm
    next hn =>
      cases hm
      exact ⟨op, OpenOverlays.mem_put.mpr (Or.inl rfl), hstop, hn, hinc.symm⟩
    next hn =>
      obtain ⟨o, ho, his, hnode, hi⟩ := h.marked n m hm
      refine ⟨o, OpenOverlays.mem_put.mpr (Or.inr ⟨ho, fun he => ?_⟩), his, hnode, hi⟩
      rw [OpenOverlays.mem_def, he, hkey] at ho
      simp at ho
  · intro o ho his
    rw [hmarks]
    rcases OpenOverlays.mem_put.mp ho with rfl | ⟨ho, -⟩
    · rw [if_pos rfl]
      exact ⟨mark, rfl, hinc⟩
    · obtain ⟨m, hm, hi⟩ := h.overlaid o ho his
      by_cases hn : op.nodeId = o.nodeId
      · rw [if_pos hn]
        rw [← hn] at hm
        exact ⟨mark, rfl, hinc.trans ((hmark m hm).symm.trans hi)⟩
      · rw [if_neg hn]
        exact ⟨m, hm, hi⟩
  · intro n m hm
    rw [hmarks] at hm
    split at hm
    next hn =>
      rw [← hn]
      exact Barrier.erase_self v.inner.map op.nodeId
    next => exact AddsNothing.erased (h.unheld n m hm)
  · exact h.closed_put hended

/-- A view with fewer members and fewer overlays agrees where every marked birth keeps a stop. -/
theorem fewer (h : v.Agree) (hmarks : w.stoppedMarks = v.stoppedMarks)
    (hflight : ∀ o ∈ w.inFlight, o ∈ v.inFlight) (hended : w.endedOverlays = v.endedOverlays)
    (hinner : ∀ n : String, v.inner.map[n]? = none → w.inner.map[n]? = none)
    (hstops : ∀ o ∈ v.inFlight, o.isStop = true → o ∈ w.inFlight) : w.Agree := by
  constructor
  · intro n m hm
    rw [hmarks] at hm
    obtain ⟨o, ho, his, hn, hinc⟩ := h.marked n m hm
    exact ⟨o, hstops o ho his, his, hn, hinc⟩
  · intro o ho his
    rw [hmarks]
    exact h.overlaid o (hflight o ho) his
  · intro n m hm
    rw [hmarks] at hm
    exact hinner n (h.unheld n m hm)
  · intro i hi hopen
    rw [hended] at hi
    obtain ⟨o, ho, hid⟩ := mem_openIds.mp hopen
    exact h.closed i hi (mem_openIds.mpr ⟨o, hflight o ho, hid⟩)

theorem leave (h : u.Agree)
    (hop : op.isStop = true → ∀ o ∈ u.inFlight, o.key = op.key → o.nodeId = op.nodeId) : (u.leave op now).Agree := by
  have hdeparts : ({ u with deleted := u.deleted.insert op.nodeId (op, now), recovering := u.recovering.erase op.nodeId } :
      DigestView).Agree := h.held rfl rfl rfl fun _ _ _ hnone => hnone
  refine (hdeparts.endStop op.nodeId).fewer rfl (fun o ho => ?_) rfl (fun _ hnone => AddsNothing.erased hnone) ?_
  · exact (OpenOverlays.mem_close.mp ho).1
  · intro o ho his
    refine OpenOverlays.mem_close.mpr ⟨ho, fun hkey => ?_⟩
    obtain ⟨ho, hkept⟩ := mem_endStop.mp ho
    have hstop : op.isStop = true := (LifecycleOp.isStop_of_key hkey).symm.trans his
    exact hkept ⟨his, hop hstop o ho hkey⟩

theorem leaveQuietly (h : u.Agree) : (u.leaveQuietly op now).Agree := by
  have hdeparts : ({ u with deleted := u.deleted.insert op.nodeId (op, now) } : DigestView).Agree :=
    h.held rfl rfl rfl fun _ _ _ hnone => hnone
  refine (hdeparts.endStop op.nodeId).fewer rfl (fun o ho => ?_) rfl (fun _ hnone => AddsNothing.erased hnone) ?_
  · exact (OpenOverlays.mem_retain.mp ho).1
  · intro o ho his
    refine OpenOverlays.mem_retain.mpr ⟨ho, bne_iff_ne.mpr fun hn => ?_⟩
    exact (mem_endStop.mp ho).2 ⟨his, hn⟩

theorem leaves (h : v.Agree) (hl : Leaves now v w) : w.Agree := by
  induction hl with
  | refl => exact h
  | touched _ ht ih => exact ih.touched ht
  | left _ _ ih => exact ih.leaveQuietly

theorem concluded (h : v.Agree) {gone : LifecycleOp → Bool} (hgone : ∀ o, gone o = true → o.isStop = false) :
    (v.endOverlays gone).Agree := by
  refine ⟨?_, ?_, h.unheld, closed_endOverlays h.closed gone⟩
  · intro n m hm
    obtain ⟨o, ho, his, hn, hinc⟩ := h.marked n m hm
    refine ⟨o, mem_endOverlays.mpr ⟨ho, ?_⟩, his, hn, hinc⟩
    cases hg : gone o with
    | false => rfl
    | true =>
      rw [hgone o hg] at his
      simp at his
  · intro o ho his
    exact h.overlaid o (mem_endOverlays.mp ho).1 his

end Agree

section Calls

variable {now : Nat} {u v w : DigestView} {op : LifecycleOp} {call : ViewCall} {dropped : List LifecycleIdentity}

theorem Opens.opening (ho : u.Opens op) (ht : Touches now v u) : v.Opening now op := by
  refine ⟨?_, ?_, ?_⟩
  · cases hd : v.isDeletedAt op.nodeId now with
    | false => rfl
    | true =>
      obtain ⟨e, he, hr⟩ := isDeletedAt_iff.mp hd
      have hnone := ho.deleted
      rw [ht.standing op.nodeId e he hr] at hnone
      simp at hnone
  · rw [← ht.ended]
    exact ho.ended
  · intro hopen
    obtain ⟨o, hmem, hid⟩ := mem_openIds.mp hopen
    rw [← ht.inFlight] at hmem
    exact ho.held o hmem (LifecycleOp.key_of_identity hid) hid

theorem holdsStopped_of_touches {n incarnation : String} (ht : Touches now v w)
    (h : v.holdsStopped n incarnation = true) : w.holdsStopped n incarnation = true := by
  obtain ⟨m, hm, hinc⟩ := holdsStopped_iff.mp h
  have hrel := ht.marks n
  rw [hm] at hrel
  cases hw : w.stoppedMarks[n]? with
  | none =>
    rw [hw] at hrel
    cases hrel
  | some m' =>
    rw [hw] at hrel
    cases hrel with
    | some hk => exact holdsStopped_iff.mpr ⟨m', hw, hk.incarnation.trans hinc⟩

/-- A call that meets its condition keeps marks and stops in step. -/
theorem Agree.moves (h : v.Agree) (hm : Moves now v call w) (hok : v.MarksOk now dropped call) : w.Agree := by
  cases hm with
  | touched ht => exact h.touched ht
  | stopEnded hc => exact h.cleared hc
  | @held via d d' u heardAt heard hc _ hmark hnode =>
    refine (h.cleared hc).held rfl rfl rfl ?_
    intro n m hm hnone
    have hne : d'.node.nodeId ≠ n := by
      rw [hnode]
      rintro rfl
      rw [hmark] at hm
      simp at hm
    exact AddsNothing.inserted hne hnone
  | projected => exact h.held rfl rfl rfl fun _ _ _ hnone => hnone
  | opened ht ho =>
    obtain ⟨-, hstop⟩ := hok (ho.opening ht)
    refine (h.touched ht).opened ho.ended ?_
    intro his
    rw [ht.inFlight]
    exact ⟨(hstop his).1, holdsStopped_of_touches ht (hstop his).2⟩
  | @stopped op carried u mark ht ho hmark hown hbirth =>
    obtain ⟨-, his, hkey, hmarks⟩ := hok ⟨ho.opening ht, hown, hbirth⟩
    refine (h.touched ht).stop ho.ended his (ht.inFlight.symm ▸ hkey) hmark ?_
    intro m hm
    have hrel := ht.marks op.nodeId
    rw [hm] at hrel
    cases hv : v.stoppedMarks[op.nodeId]? with
    | none =>
      rw [hv] at hrel
      cases hrel
    | some m₀ =>
      rw [hv] at hrel
      cases hrel with
      | some hk => exact hk.incarnation.trans (hmarks m₀ hv).1
  | rejoined _ _ hr => exact h.rejoined hr
  | @departed op u ht hdel =>
    refine (h.touched ht).leave ?_
    rw [ht.inFlight]
    refine hok ?_
    cases hd : v.isDeletedAt op.nodeId now with
    | false => rfl
    | true =>
      obtain ⟨e, he, hr⟩ := isDeletedAt_iff.mp hd
      rw [ht.standing op.nodeId e he hr] at hdel
      simp at hdel
  | meshLeft hl => exact h.leaves hl
  | concluded hgone => exact h.concluded hgone

theorem mem_openIds_of_subset {i : LifecycleIdentity} (h : ∀ o ∈ w.inFlight, o ∈ v.inFlight) (hi : i ∈ w.openIds) :
    i ∈ v.openIds := by
  obtain ⟨o, ho, hid⟩ := mem_openIds.mp hi
  exact mem_openIds.mpr ⟨o, h o ho, hid⟩

theorem mem_inFlight_of_cleared {id : String} (hc : Cleared now v id w) : ∀ o ∈ w.inFlight, o ∈ v.inFlight := by
  rcases hc with ht | ⟨x, m, hx, -, rfl⟩
  · intro o ho
    exact ht.inFlight ▸ ho
  · intro o ho
    exact hx.inFlight ▸ (mem_endStop.mp ho).1

theorem mem_inFlight_of_leaves (hl : Leaves now v w) : ∀ o ∈ w.inFlight, o ∈ v.inFlight := by
  induction hl with
  | refl => exact fun _ ho => ho
  | touched _ ht ih => exact fun o ho => ih o (ht.inFlight ▸ ho)
  | left _ _ ih => exact fun o ho => ih o (mem_leaveQuietly.mp ho).1.1

/-- An overlay opens by a removal or a stop alone. -/
theorem Moves.opened_by (hm : Moves now v call w) {i : LifecycleIdentity} (hi : i ∈ w.openIds) :
    i ∈ v.openIds ∨ (∃ op, call = .deleting op ∧ v.Opening now op ∧ op.identity = i) ∨
      ∃ op carried, call = .stopped op carried ∧ v.TakesStop now op ∧ op.identity = i := by
  cases hm with
  | touched ht => exact Or.inl (mem_openIds_of_subset (fun _ ho => ht.inFlight ▸ ho) hi)
  | stopEnded hc => exact Or.inl (mem_openIds_of_subset (mem_inFlight_of_cleared hc) hi)
  | held hc _ _ _ => exact Or.inl (mem_openIds_of_subset (mem_inFlight_of_cleared hc) hi)
  | projected => exact Or.inl hi
  | @opened op u ht ho =>
    obtain ⟨o, hmem, hid⟩ := mem_openIds.mp hi
    rcases OpenOverlays.mem_put.mp hmem with rfl | ⟨hmem, -⟩
    · exact Or.inr (Or.inl ⟨o, rfl, ho.opening ht, hid⟩)
    · exact Or.inl (mem_openIds.mpr ⟨o, ht.inFlight ▸ hmem, hid⟩)
  | @stopped op carried u mark ht ho _ hown hbirth =>
    obtain ⟨o, hmem, hid⟩ := mem_openIds.mp hi
    rcases OpenOverlays.mem_put.mp hmem with rfl | ⟨hmem, -⟩
    · exact Or.inr (Or.inr ⟨o, carried, rfl, ⟨ho.opening ht, hown, hbirth⟩, hid⟩)
    · exact Or.inl (mem_openIds.mpr ⟨o, ht.inFlight ▸ hmem, hid⟩)
  | rejoined _ _ hr =>
    refine Or.inl (mem_openIds_of_subset (fun o ho => ?_) hi)
    rcases hr with ht | ⟨entry, ht⟩
    · exact (mem_endStop.mp (ht.inFlight ▸ ho)).1
    · have hmem : o ∈ ((v.endStop _).rehold _ entry).inFlight := ht.inFlight ▸ ho
      exact (mem_endStop.mp hmem).1
  | departed ht _ =>
    refine Or.inl (mem_openIds_of_subset (fun o ho => ?_) hi)
    exact ht.inFlight ▸ (mem_leave.mp ho).1.1
  | meshLeft hl => exact Or.inl (mem_openIds_of_subset (mem_inFlight_of_leaves hl) hi)
  | concluded _ => exact Or.inl (mem_openIds_of_subset (fun o ho => (mem_endOverlays.mp ho).1) hi)

theorem ended_endStop (v : DigestView) (id : String) {i : LifecycleIdentity} (hi : i ∈ v.endedOverlays) :
    i ∈ (v.endStop id).endedOverlays :=
  mem_ended_endOverlays.mpr (Or.inl hi)

theorem ended_of_cleared {id : String} (hc : Cleared now v id w) {i : LifecycleIdentity}
    (hi : i ∈ v.endedOverlays) : i ∈ w.endedOverlays := by
  rcases hc with ht | ⟨x, m, hx, -, rfl⟩
  · rw [ht.ended]
    exact hi
  · exact ended_endStop x id (hx.ended.symm ▸ hi)

theorem ended_of_leaves (hl : Leaves now v w) {i : LifecycleIdentity} (hi : i ∈ v.endedOverlays) :
    i ∈ w.endedOverlays := by
  induction hl with
  | refl => exact hi
  | touched _ ht ih =>
    rw [ht.ended]
    exact ih
  | @left u op _ _ ih => exact ended_endStop { u with deleted := _ } op.nodeId ih

/-- What ended stays ended. -/
theorem Moves.ended (hm : Moves now v call w) {i : LifecycleIdentity} (hi : i ∈ v.endedOverlays) :
    i ∈ w.endedOverlays := by
  cases hm with
  | touched ht => exact ht.ended.symm ▸ hi
  | stopEnded hc => exact ended_of_cleared hc hi
  | held hc _ _ _ => exact ended_of_cleared hc hi
  | projected => exact hi
  | opened ht _ =>
    have hu := ht.ended.symm ▸ hi
    exact hu
  | stopped ht _ _ _ _ =>
    have hu := ht.ended.symm ▸ hi
    exact hu
  | @rejoined call n m w _ _ hr =>
    have hended := ended_endStop v n hi
    rcases hr with ht | ⟨entry, ht⟩
    · rw [ht.ended]
      exact hended
    · rw [ht.ended]
      exact hended
  | @departed op u ht _ => exact ended_endStop { u with deleted := _, recovering := _ } op.nodeId (ht.ended.symm ▸ hi)
  | meshLeft hl => exact ended_of_leaves hl hi
  | concluded _ => exact mem_ended_endOverlays.mpr (Or.inl hi)

/-- Every mark of `w` is a mark of `v`, kept. -/
def Carries (v w : DigestView) : Prop :=
  ∀ (n : String) m', w.stoppedMarks[n]? = some m' → ∃ m, v.stoppedMarks[n]? = some m ∧ m.Kept m'

theorem Carries.trans (h : Carries u v) (h' : Carries v w) : Carries u w := by
  intro n m'' hm''
  obtain ⟨m', hm', hk'⟩ := h' n m'' hm''
  obtain ⟨m, hm, hk⟩ := h n m' hm'
  exact ⟨m, hm, hk.trans hk'⟩

theorem Carries.same (h : Carries v u) (hmarks : w.stoppedMarks = u.stoppedMarks) : Carries v w := by
  intro n m' hm'
  rw [hmarks] at hm'
  exact h n m' hm'

theorem carries_touched (ht : Touches now v w) : Carries v w := by
  intro n m' hm'
  have hrel := ht.marks n
  rw [hm'] at hrel
  cases hv : v.stoppedMarks[n]? with
  | none =>
    rw [hv] at hrel
    cases hrel
  | some m =>
    rw [hv] at hrel
    cases hrel with
    | some hk => exact ⟨m, rfl, hk⟩

theorem carries_endStop (v : DigestView) (id : String) : Carries v (v.endStop id) := by
  intro n m' hm'
  rw [endStop_marks] at hm'
  split at hm'
  next => simp at hm'
  next => exact ⟨m', hm', StopMark.Kept.refl m'⟩

theorem carries_cleared {id : String} (hc : Cleared now v id w) : Carries v w := by
  rcases hc with ht | ⟨x, m, hx, -, rfl⟩
  · exact carries_touched ht
  · exact (carries_touched hx).trans (carries_endStop x id)

theorem carries_leaves (hl : Leaves now v w) : Carries v w := by
  induction hl with
  | refl => exact carries_touched (Touches.refl now v)
  | touched _ ht ih => exact ih.trans (carries_touched ht)
  | @left u op _ _ ih => exact ih.trans (carries_endStop { u with deleted := _ } op.nodeId)

/-- A mark of a node that stays marked loses no digest it kept. -/
theorem Moves.keeps_mark (hm : Moves now v call w) (hok : v.MarksOk now dropped call) {n : String} {m m' : StopMark}
    (h : v.stoppedMarks[n]? = some m) (h' : w.stoppedMarks[n]? = some m') : m.Kept m' := by
  have hcarried : Carries v w → m.Kept m' := by
    intro hc
    obtain ⟨m₀, hm₀, hk⟩ := hc n m' h'
    rw [h] at hm₀
    exact Option.some.inj hm₀ ▸ hk
  cases hm with
  | touched ht => exact hcarried (carries_touched ht)
  | stopEnded hc => exact hcarried (carries_cleared hc)
  | held hc _ _ _ => exact hcarried ((carries_cleared hc).same rfl)
  | projected => exact hcarried ((carries_touched (Touches.refl now v)).same rfl)
  | opened ht _ => exact hcarried ((carries_touched ht).same rfl)
  | @stopped op carried u mark ht ho hmark hown hbirth =>
    by_cases hn : op.nodeId = n
    · -- A mark the stop replaces is of the same birth and kept no digest.
      obtain ⟨-, -, -, hmarks⟩ := hok ⟨ho.opening ht, hown, hbirth⟩
      obtain ⟨hinc, hheld, hlatest⟩ := hmarks m (hn.symm ▸ h)
      have hnew : (u.stop op mark).stoppedMarks[n]? = some mark := by
        unfold DigestView.stop
        dsimp only
        rw [getElem?_insert_eq, if_pos hn]
      obtain rfl : mark = m' := Option.some.inj (hnew.symm.trans h')
      refine ⟨hmark.trans hinc.symm, ?_, ?_⟩
      · intro d hd
        rw [hheld] at hd
        simp at hd
      · intro l hl
        rw [hlatest] at hl
        simp at hl
    · have hold : u.stoppedMarks[n]? = some m' := by
        unfold DigestView.stop at h'
        dsimp only at h'
        rw [getElem?_insert_eq, if_neg hn] at h'
        exact h'
      obtain ⟨m₀, hm₀, hk⟩ := carries_touched ht n m' hold
      rw [h] at hm₀
      exact Option.some.inj hm₀ ▸ hk
  | @rejoined call id m₀ w _ _ hr =>
    refine hcarried ((carries_endStop v id).trans ?_)
    rcases hr with ht | ⟨entry, ht⟩
    · exact carries_touched ht
    · have hreheld : Carries (v.endStop id) ((v.endStop id).rehold id entry) :=
        fun _ m hm => ⟨m, hm, StopMark.Kept.refl m⟩
      exact hreheld.trans (carries_touched ht)
  | @departed op u ht _ =>
    exact hcarried ((carries_touched ht).trans (carries_endStop { u with deleted := _, recovering := _ } op.nodeId))
  | meshLeft hl => exact hcarried (carries_leaves hl)
  | concluded _ => exact hcarried fun _ m hm => ⟨m, hm, StopMark.Kept.refl m⟩

end Calls

end DigestView

/-- A run, and the overlays that closed in it without being recorded as ended: cleared by a departure,
or replaced under their key. -/
structure Traced where
  world : World
  dropped : List LifecycleIdentity

namespace Traced

def start (w : World) : Traced := ⟨w, []⟩

def step (t : Traced) (call : ViewCall) : Traced :=
  let w := t.world.step call
  ⟨w, t.dropped ++ t.world.view.openIds.filter fun i =>
    !w.view.openIds.contains i && !w.view.endedOverlays.contains i⟩

def StepOk (t : Traced) (call : ViewCall) : Prop := t.world.view.MarksOk t.world.now t.dropped call

theorem run_world (t : Traced) (calls : List ViewCall) : (calls.foldl step t).world = t.world.run calls := by
  induction calls generalizing t with
  | nil => rfl
  | cons call calls ih => exact ih (t.step call)

/-- The overlay closed in the run. -/
def Closed (t : Traced) (i : LifecycleIdentity) : Prop := i ∈ t.world.view.endedOverlays ∨ i ∈ t.dropped

structure Good (t : Traced) : Prop where
  agree : t.world.view.Agree
  dropped : ∀ i ∈ t.dropped, i ∉ t.world.view.openIds

variable {t : Traced} {call : ViewCall} {calls : List ViewCall} {i : LifecycleIdentity}

theorem moves (t : Traced) (call : ViewCall) :
    DigestView.Moves t.world.now t.world.view call (t.step call).world.view := by
  have hmoves := t.world.view.call_moves t.world.now call
  rw [← World.step_view] at hmoves
  exact hmoves

theorem Closed.step (h : t.Closed i) (call : ViewCall) : (t.step call).Closed i := by
  rcases h with hended | hdropped
  · exact Or.inl ((t.moves call).ended hended)
  · exact Or.inr (List.mem_append_left _ hdropped)

/-- An overlay no longer open has closed. -/
theorem closed_of_step (hopen : i ∈ t.world.view.openIds) (hnow : i ∉ (t.step call).world.view.openIds) :
    (t.step call).Closed i := by
  by_cases hended : i ∈ (t.step call).world.view.endedOverlays
  · exact Or.inl hended
  · refine Or.inr (List.mem_append_right _ (List.mem_filter.mpr ⟨hopen, ?_⟩))
    simp only [Bool.and_eq_true, Bool.not_eq_true', List.contains_eq_mem, decide_eq_false_iff_not]
    refine ⟨hnow, ?_⟩
    rw [← Bool.not_eq_true, ExtTreeSet.contains_iff_mem]
    exact hended

theorem Good.step (h : t.Good) (hok : t.StepOk call) : (t.step call).Good := by
  refine ⟨h.agree.moves (t.moves call) hok, ?_⟩
  intro i hi hopen
  rcases List.mem_append.mp hi with hold | hnew
  · rcases (t.moves call).opened_by hopen with hwas | ⟨op, rfl, hopens, rfl⟩ | ⟨op, carried, rfl, htakes, rfl⟩
    · exact h.dropped i hold hwas
    · exact (hok hopens).1 hold
    · exact (hok htakes).1 hold
  · have hfilter := (List.mem_filter.mp hnew).2
    simp only [Bool.and_eq_true, Bool.not_eq_true', List.contains_eq_mem, decide_eq_false_iff_not] at hfilter
    exact hfilter.1 hopen

theorem Good.closed (h : t.Good) (hc : t.Closed i) : i ∉ t.world.view.openIds := by
  rcases hc with hended | hdropped
  · exact h.agree.closed i hended
  · exact h.dropped i hdropped

theorem Good.run (h : t.Good) (hok : RunOk Traced.step StepOk t calls) : (calls.foldl Traced.step t).Good :=
  hok.invariant (fun _ _ h hok => h.step hok) h

theorem Closed.run (h : t.Closed i) (calls : List ViewCall) : (calls.foldl Traced.step t).Closed i := by
  induction calls generalizing t with
  | nil => exact h
  | cons call calls ih => exact ih (h.step call)

theorem closed_of_run (hopen : i ∈ t.world.view.openIds)
    (hnow : i ∉ (calls.foldl Traced.step t).world.view.openIds) : (calls.foldl Traced.step t).Closed i := by
  induction calls generalizing t with
  | nil => exact absurd hopen hnow
  | cons call calls ih =>
    by_cases hstep : i ∈ (t.step call).world.view.openIds
    · exact ih hstep hnow
    · exact (closed_of_step hopen hstep).run calls

/-- While the stop stands, its mark loses no digest it kept. -/
theorem keeps_mark {n : String} {m : StopMark} (hok : RunOk step StepOk t calls)
    (hm : t.world.view.stoppedMarks[n]? = some m)
    (hstands : ∀ part, part <+: calls → (t.world.run part).view.holdsStopped n m.incarnation = true) :
    ∃ m', (t.world.run calls).view.stoppedMarks[n]? = some m' ∧ m.Kept m' := by
  induction calls generalizing t m with
  | nil => exact ⟨m, hm, StopMark.Kept.refl m⟩
  | cons call calls ih =>
    obtain ⟨m₁, hm₁, hinc⟩ := DigestView.holdsStopped_iff.mp (hstands [call] ⟨calls, rfl⟩)
    have hkept := (t.moves call).keeps_mark hok.1 hm hm₁
    have hrest : ∀ part, part <+: calls → ((t.step call).world.run part).view.holdsStopped n m₁.incarnation = true := by
      intro part hpart
      rw [hinc]
      exact hstands (call :: part) (List.prefix_cons_inj call |>.mpr hpart)
    obtain ⟨m', hm', hk'⟩ := ih hok.2 hm₁ hrest
    exact ⟨m', hm', hkept.trans hk'⟩

theorem good_fresh (retention stalenessFloor now : Nat) : (start (World.fresh retention stalenessFloor now)).Good := by
  have hnone : ∀ o, o ∉ (World.fresh retention stalenessFloor now).view.inFlight := fun _ => OpenOverlays.not_mem_empty
  have hmarks : ∀ (n : String) m, (World.fresh retention stalenessFloor now).view.stoppedMarks[n]? ≠ some m := by
    intro n m hm
    simp [World.fresh, DigestView.withFloor] at hm
  refine ⟨⟨?_, ?_, ?_, ?_⟩, ?_⟩
  · exact fun n m hm => absurd hm (hmarks n m)
  · exact fun o ho => absurd ho (hnone o)
  · exact fun n m hm => absurd hm (hmarks n m)
  · intro i _ hopen
    obtain ⟨o, ho, -⟩ := DigestView.mem_openIds.mp hopen
    exact hnone o ho
  · intro i hi
    simp [start] at hi

/-- In every run that takes no second stop of a marked node, opens no overlay that closed without a
record and confuses no key of two births: every mark has an open stop of its exact birth and every
open stop a mark, a marked birth is not held, an overlay that ended stays closed, and a mark keeps its
digests while its stop stands. -/
theorem marks_follow_stops (retention stalenessFloor now : Nat) (before after : List ViewCall)
    (hok : RunOk step StepOk (start (World.fresh retention stalenessFloor now)) (before ++ after)) :
    let fresh := World.fresh retention stalenessFloor now
    let view := (fresh.run (before ++ after)).view
    (∀ (n : String) m, view.stoppedMarks[n]? = some m →
      (∃ o ∈ view.inFlight, o.isStop = true ∧ o.nodeId = n ∧ o.incarnation = m.incarnation) ∧
        view.inner.map[n]? = none) ∧
    (∀ o ∈ view.inFlight, o.isStop = true → view.holdsStopped o.nodeId o.incarnation = true) ∧
    (∀ i earlier later, before = earlier ++ later → i ∈ (fresh.run earlier).view.openIds →
      i ∉ (fresh.run before).view.openIds → i ∉ view.openIds) ∧
    (∀ (n : String) m, (fresh.run before).view.stoppedMarks[n]? = some m →
      (∀ part, part <+: after → (fresh.run (before ++ part)).view.holdsStopped n m.incarnation = true) →
      ∃ m', view.stoppedMarks[n]? = some m' ∧ m.Kept m') := by
  intro fresh view
  have hgood := good_fresh retention stalenessFloor now
  have hend := hgood.run hok
  have hview : ((before ++ after).foldl step (start fresh)).world.view = view := by
    rw [run_world]
    rfl
  obtain ⟨hbefore, hafter⟩ := (runOk_append _ before after).mp hok
  have hmid : (before.foldl step (start fresh)).world = fresh.run before := run_world _ before
  have hagree : view.Agree := hview ▸ hend.agree
  refine ⟨?_, ?_, ?_, ?_⟩
  · intro n m hm
    exact ⟨hagree.marked n m hm, hagree.unheld n m hm⟩
  · intro o ho hstop
    exact DigestView.holdsStopped_iff.mpr (hagree.overlaid o ho hstop)
  · intro i earlier later hsplit hopen hclosed
    subst hsplit
    rw [← hmid, List.foldl_append] at hclosed
    have hearlier : (earlier.foldl step (start fresh)).world = fresh.run earlier := run_world _ earlier
    rw [← hearlier] at hopen
    have hrun := (closed_of_run hopen hclosed).run after
    rw [← List.foldl_append, ← List.foldl_append, ← List.append_assoc] at hrun
    rw [← hview]
    exact hend.closed hrun
  · intro n m hm hstands
    rw [← hmid] at hm
    have hkept := keeps_mark hafter hm (by
      intro part hpart
      rw [hmid, ← World.run_append]
      exact hstands part hpart)
    rw [hmid, ← World.run_append] at hkept
    exact hkept

open World in
/-- A stop whose birth is heard again while it stands. -/
theorem marks_follow_stops_heard :
    let before := [.record .heartbeat (digestOf "b1" none .ready 1), .stopped (opOf "node.stop" "build1" "b1") none]
    let after := [.record .heartbeat (digestOf "b1" none .ready 2)]
    ∃ m m', ((fresh 10 3 0).run before).view.stoppedMarks["n1"]? = some m ∧
      ((fresh 10 3 0).run (before ++ after)).view.stoppedMarks["n1"]? = some m' ∧ m.Kept m' ∧
      m.held = some (digestOf "b1" none .ready 1) := by
  intro before after
  have hmark : (((fresh 10 3 0).run before).view.stoppedMarks["n1"]?).map (fun m => (m.incarnation, m.held)) =
      some ("b1", some (digestOf "b1" none .ready 1)) := by decide +kernel
  obtain ⟨m, hm, hfields⟩ := Option.map_eq_some_iff.mp hmark
  obtain ⟨hinc, hheld⟩ := Prod.mk.inj hfields
  have hok : RunOk step StepOk (start (fresh 10 3 0)) (before ++ after) := by
    refine ⟨trivial, ?_, trivial, trivial⟩
    intro _
    refine ⟨List.not_mem_nil, by decide +kernel, by decide +kernel, ?_⟩
    have hnone : ((start (fresh 10 3 0)).step (.record .heartbeat (digestOf "b1" none .ready 1))).world.view.stoppedMarks["n1"]? =
        none := by decide +kernel
    intro m hm
    exact absurd (hnone.symm.trans hm) (by simp)
  have hstands : ∀ part, part <+: after →
      ((fresh 10 3 0).run (before ++ part)).view.holdsStopped "n1" m.incarnation = true := by
    intro part hpart
    rw [hinc]
    have hlist : ∀ part ∈ after.inits, ((fresh 10 3 0).run (before ++ part)).view.holdsStopped "n1" "b1" = true := by
      decide +kernel
    exact hlist part ((List.mem_inits part after).mpr hpart)
  obtain ⟨-, -, -, hkept⟩ := marks_follow_stops 10 3 0 before after hok
  obtain ⟨m', hm', hk⟩ := hkept "n1" m hm hstands
  exact ⟨m, m', hm, hm', hk, hheld⟩

/-- A birth is stopped twice, by two Builds. -/
def stoppedTwice : List ViewCall :=
  [.record .heartbeat (World.digestOf "b1" none .ready 1), .stopped (World.opOf "node.stop" "build1" "b1") none,
    .stopped (World.opOf "node.stop" "build2" "b1") none]

/-- Two births of a node are stopped, neither of them held. -/
def stoppedBoth : List ViewCall :=
  [.stopped (World.opOf "node.stop" "build1" "b1") none, .stopped (World.opOf "node.stop" "build2" "b2") none]

/-- A removal is heard again after its departure's retention. -/
def removedAgain : List ViewCall :=
  [.deleting (World.opOf "node.delete" "build1" "b1"), .depart (World.opOf "node.delete" "build1" "b1"), .elapse 10,
    .deleting (World.opOf "node.delete" "build1" "b1")]

open World in
/-- The second stop drops the digest the mark kept, the stop of another birth leaves the first one's
overlay unmarked, and the removal its departure cleared opens again. -/
theorem marks_part_from_stops :
    ((((fresh 10 3 0).run (stoppedTwice.take 2)).view.stoppedMarks["n1"]?).map (fun m => (m.incarnation, m.held)) =
        some ("b1", some (digestOf "b1" none .ready 1)) ∧
      (((fresh 10 3 0).run stoppedTwice).view.stoppedMarks["n1"]?).map (fun m => (m.incarnation, m.held)) =
        some ("b1", none)) ∧
    (opOf "node.stop" "build1" "b1" ∈ ((fresh 10 3 0).run stoppedBoth).view.inFlight.list ∧
      ((fresh 10 3 0).run stoppedBoth).view.holdsStopped "n1" "b1" = false) ∧
    ((opOf "node.delete" "build1" "b1").identity ∈ ((fresh 10 3 0).run (removedAgain.take 1)).view.openIds ∧
      (opOf "node.delete" "build1" "b1").identity ∉ ((fresh 10 3 0).run (removedAgain.take 2)).view.openIds ∧
      (opOf "node.delete" "build1" "b1").identity ∈ ((fresh 10 3 0).run removedAgain).view.openIds) := by
  refine ⟨⟨?_, ?_⟩, ⟨?_, ?_⟩, ⟨?_, ?_, ?_⟩⟩
  · decide +kernel
  · decide +kernel
  · decide +kernel
  · decide +kernel
  · decide +kernel
  · decide +kernel
  · decide +kernel

end Traced

end DistributedMesh
