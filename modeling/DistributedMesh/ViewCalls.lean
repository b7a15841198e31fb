import DistributedMesh.GuardedRuns
import DistributedMesh.ViewState

namespace DistributedMesh

open Std (ExtTreeMap ExtTreeSet)
open KeyedMaps

/-- One operation on a view, or time passing. -/
inductive ViewCall where
  | elapse (time : Nat)
  | record (via : Via) (d : MeshDigest)
  | holdProjected (d : MeshDigest)
  | deleting (op : LifecycleOp)
  | stopped (op : LifecycleOp) (carried : Option (String × Nat))
  | joined (op : LifecycleOp) (already : Option NodeStatus)
  | depart (op : LifecycleOp)
  | departMeshBirths (mesh buildId : String) (atRafkaMs : Nat)
  | deletionsFromFacts (byVerdict : List OpKey) (forgotten : List String)
  | noteStopsCarried (target : Target)
  | stoppedEntry (d : MeshDigest) (target : Target)
  | started (id incarnation mesh : String)
  | reported (id incarnation : String) (status : NodeStatus)
  | admitted (op : LifecycleOp) (status : NodeStatus)
  | adoptStatus (id incarnation mesh : String) (status : NodeStatus)
  | holdRecovering (id incarnation : String)
  | returnedReported (id incarnation : String)
  | expireDeleted
  | restartSilence
  | woken
  | markAwake
  | takePrimary (role : PrimaryRole) (record : Primary)
  | meshStatus (mesh status : String)
  | configure (primary : Bool) (ownMesh : String) (own ownPredecessor : Option String) (observerName : String)

/-- The node ids a message names. -/
def ViewCall.names : ViewCall → List String
  | record _ d | holdProjected d | stoppedEntry d _ => [d.node.nodeId]
  | deleting op | stopped op _ | joined op _ | depart op | admitted op _ => [op.nodeId]
  | started id _ _ | reported id _ _ | adoptStatus id _ _ _ | holdRecovering id _ => [id]
  | _ => []

namespace DigestView

/-- What a call does to the view, at `now`. -/
def call (v : DigestView) (now : Nat) : ViewCall → DigestView
  | .elapse _ => v
  | .record via d => (v.recordVia via d now).1
  | .holdProjected d => (v.holdProjectedAt d now).1
  | .deleting op => (v.deleting op now).1
  | .stopped op carried => (v.stoppedCarried op carried now).1
  | .joined op already => (v.takeJoined op already now).1
  | .depart op => (v.departAt op now).1
  | .departMeshBirths mesh buildId atRafkaMs => v.departMeshBirths mesh buildId atRafkaMs now
  | .deletionsFromFacts byVerdict forgotten => v.deletionsFromFacts byVerdict forgotten
  | .noteStopsCarried target => v.noteStopsCarried target
  | .stoppedEntry d target => (v.stoppedEntry d target).1
  | .started id incarnation mesh => (v.started id incarnation mesh).1
  | .reported id incarnation status => (v.reported id incarnation status).1
  | .admitted op status => (v.admitted op status).1
  | .adoptStatus id incarnation mesh status => (v.adoptStatus id incarnation mesh status now).1
  | .holdRecovering id incarnation => v.holdRecovering id incarnation
  | .returnedReported id incarnation => v.returnedReported id incarnation
  | .expireDeleted => v.expireDeletedAt now
  | .restartSilence => v.restartSilence now
  | .woken => v.woken now
  | .markAwake => v.markAwake now
  | .takePrimary role record => { v with primaries := v.primaries.take role record }
  | .meshStatus mesh status => { v with statuses := v.statuses.insert mesh status }
  | .configure primary ownMesh own ownPredecessor observerName =>
    { v with
      primary := primary
      ownMesh := ownMesh
      own := own
      ownPredecessor := ownPredecessor
      observerName := observerName }

end DigestView

/-- A view and the local clock its calls read. -/
structure World where
  view : DigestView
  now : Nat

namespace World

def step (w : World) (call : ViewCall) : World :=
  match call with
  | .elapse time => { w with now := w.now + time }
  | call => { w with view := w.view.call w.now call }

def run (w : World) (calls : List ViewCall) : World := calls.foldl step w

theorem run_append (w : World) (xs ys : List ViewCall) : w.run (xs ++ ys) = (w.run xs).run ys :=
  List.foldl_append

theorem step_view (w : World) (call : ViewCall) : (w.step call).view = w.view.call w.now call := by
  cases call <;> rfl

theorem now_le_step (w : World) (call : ViewCall) : w.now ≤ (w.step call).now := by
  cases call with
  | elapse time => exact Nat.le_add_right _ _
  | _ => exact Nat.le_refl _

end World

/-- Waking changes nothing, or restarts every silence. -/
theorem DigestView.woken_cases (v : DigestView) (now : Nat) :
    v.woken now = v ∨ v.woken now = { v with awake := some now }.restartSilence now := by
  unfold woken
  split
  next =>
    split
    next => exact Or.inr rfl
    next => exact Or.inl rfl
  next => exact Or.inl rfl

/-- A mark of the same birth that lost no digest it kept; its latest one only moved on. -/
structure StopMark.Kept (m m' : StopMark) : Prop where
  incarnation : m'.incarnation = m.incarnation
  held : ∀ d, m.held = some d → m'.held = some d
  latest : ∀ l, m.latest = some l → ∃ l', m'.latest = some l' ∧ l.digest.digestSeq ≤ l'.digest.digestSeq

namespace StopMark.Kept

theorem refl (m : StopMark) : Kept m m := ⟨rfl, fun _ hd => hd, fun l hl => ⟨l, hl, Nat.le_refl _⟩⟩

theorem trans {a b c : StopMark} (h : Kept a b) (h' : Kept b c) : Kept a c := by
  refine ⟨h'.incarnation.trans h.incarnation, fun d hd => h'.held d (h.held d hd), ?_⟩
  intro l hl
  obtain ⟨l', hl', hle⟩ := h.latest l hl
  obtain ⟨l'', hl'', hle'⟩ := h'.latest l' hl'
  exact ⟨l'', hl'', Nat.le_trans hle hle'⟩

theorem keep (m : StopMark) (d : MeshDigest) (via : Via) (now : Nat) : Kept m (m.keep d via now) := by
  unfold StopMark.keep
  split
  next h =>
    refine ⟨rfl, fun _ hd => hd, ?_⟩
    intro l hl
    have hlt : l.digest.digestSeq < d.digestSeq := by
      rw [hl] at h
      simp only [Option.all_some, Bool.and_eq_true, decide_eq_true_eq] at h
      exact h.1
    exact ⟨_, rfl, Nat.le_of_lt hlt⟩
  next => exact refl m

end StopMark.Kept

/-- `w` is `v` but for what no invariant of births and overlays reads: departures past the retention
are forgotten, marks kept, digests and instants of held births moved. -/
structure Touches (now : Nat) (v w : DigestView) : Prop where
  retention : w.retention = v.retention
  deleted : ∀ (n : String) e, w.deleted[n]? = some e → v.deleted[n]? = some e
  standing : ∀ (n : String) e, v.deleted[n]? = some e → now - e.2 < v.retention → w.deleted[n]? = some e
  inner : ∀ n : String, (w.inner.map[n]?).map (fun held => held.digest.node.incarnation) =
    (v.inner.map[n]?).map (fun held => held.digest.node.incarnation)
  projected : ∀ n : String, (w.projected[n]?).isSome = (v.projected[n]?).isSome
  marks : ∀ n : String, Option.Rel StopMark.Kept v.stoppedMarks[n]? w.stoppedMarks[n]?
  inFlight : w.inFlight = v.inFlight
  ended : w.endedOverlays = v.endedOverlays

namespace Touches

variable {now : Nat} {u v w : DigestView}

theorem kept_refl (o : Option StopMark) : Option.Rel StopMark.Kept o o := by
  cases o with
  | none => exact .none
  | some m => exact .some (StopMark.Kept.refl m)

theorem kept_trans {a b c : Option StopMark} (h : Option.Rel StopMark.Kept a b)
    (h' : Option.Rel StopMark.Kept b c) : Option.Rel StopMark.Kept a c := by
  cases h with
  | none => exact h'
  | some hab =>
    cases h' with
    | some hbc => exact .some (hab.trans hbc)

theorem refl (now : Nat) (v : DigestView) : Touches now v v :=
  ⟨rfl, fun _ _ h => h, fun _ _ h _ => h, fun _ => rfl, fun _ => rfl, fun _ => kept_refl _, rfl, rfl⟩

theorem trans (h : Touches now u v) (h' : Touches now v w) : Touches now u w where
  retention := h'.retention.trans h.retention
  deleted n e he := h.deleted n e (h'.deleted n e he)
  standing n e he hr := h'.standing n e (h.standing n e he hr) (h.retention.symm ▸ hr)
  inner n := (h'.inner n).trans (h.inner n)
  projected n := (h'.projected n).trans (h.projected n)
  marks n := kept_trans (h.marks n) (h'.marks n)
  inFlight := h'.inFlight.trans h.inFlight
  ended := h'.ended.trans h.ended

theorem expire (now : Nat) (v : DigestView) : Touches now v (v.expireDeletedAt now) where
  retention := rfl
  deleted n e he := by
    rw [DigestView.expireDeletedAt_deleted, Option.filter_eq_some_iff] at he
    exact he.1
  standing n e he hr := by
    rw [DigestView.expireDeletedAt_deleted, Option.filter_eq_some_iff]
    exact ⟨he, decide_eq_true hr⟩
  inner _ := rfl
  projected _ := rfl
  marks _ := kept_refl _
  inFlight := rfl
  ended := rfl

/-- A mark replaced by a later form of it. -/
theorem mark {n : String} {m m' : StopMark} (hm : v.stoppedMarks[n]? = some m) (hk : m.Kept m') :
    Touches now v { v with stoppedMarks := v.stoppedMarks.insert n m' } where
  retention := rfl
  deleted _ _ h := h
  standing _ _ h _ := h
  inner _ := rfl
  projected _ := rfl
  marks a := by
    dsimp only
    rw [getElem?_insert_eq]
    split
    next h =>
      subst h
      rw [hm]
      exact .some hk
    next => exact kept_refl _
  inFlight := rfl
  ended := rfl

theorem restartSilence (now : Nat) (v : DigestView) : Touches now v (v.restartSilence now) where
  retention := rfl
  deleted _ _ h := h
  standing _ _ h _ := h
  inner n := by
    unfold DigestView.restartSilence
    rw [HeldMembers.restartSilence_map, ExtTreeMap.getElem?_map, Option.map_map]
    rfl
  projected n := by
    unfold DigestView.restartSilence
    rw [ExtTreeMap.getElem?_map, Option.isSome_map]
  marks _ := kept_refl _
  inFlight := rfl
  ended := rfl

/-- What is no part of the births, the overlays and the departures may change. -/
theorem aside (h : v.retention = w.retention) (hdeleted : v.deleted = w.deleted)
    (hinner : v.inner.map = w.inner.map) (hprojected : v.projected = w.projected)
    (hmarks : v.stoppedMarks = w.stoppedMarks) (hflight : v.inFlight = w.inFlight)
    (hended : v.endedOverlays = w.endedOverlays) : Touches now v w where
  retention := h.symm
  deleted n e he := by rw [hdeleted]; exact he
  standing n e he _ := by rw [← hdeleted]; exact he
  inner n := by rw [hinner]
  projected n := by rw [hprojected]
  marks n := by rw [hmarks]; exact kept_refl _
  inFlight := hflight.symm
  ended := hended.symm

theorem woken (now : Nat) (v : DigestView) : Touches now v (v.woken now) := by
  rcases v.woken_cases now with hw | hw
  · rw [hw]
    exact refl now v
  · rw [hw]
    have haside : Touches now v { v with awake := some now } := aside rfl rfl rfl rfl rfl rfl rfl
    exact haside.trans (restartSilence now _)

theorem noteReturned (now : Nat) (v : DigestView) (d : MeshDigest) : Touches now v (v.noteReturned d) := by
  unfold DigestView.noteReturned
  split
  next => exact aside rfl rfl rfl rfl rfl rfl rfl
  next => exact refl now v

theorem setStatus_map (m : HeldMembers) (id : String) (status : NodeStatus) (n : String) :
    ((m.setStatus id status).map[n]?).map (fun held => held.digest.node.incarnation) =
      (m.map[n]?).map (fun held => held.digest.node.incarnation) := by
  unfold HeldMembers.setStatus
  split
  next => rfl
  next held hm =>
    dsimp only
    rw [getElem?_insert_eq]
    split
    next h =>
      subst h
      rw [hm]
      rfl
    next => rfl

theorem authorStatus (now : Nat) (v : DigestView) (id incarnation : String) (status : NodeStatus) :
    Touches now v (v.authorStatus id incarnation status).1 := by
  unfold DigestView.authorStatus
  split
  next =>
    refine ⟨rfl, fun _ _ h => h, fun _ _ h _ => h, ?_, fun _ => rfl, fun _ => kept_refl _, rfl, rfl⟩
    intro n
    exact setStatus_map v.inner id status n
  next =>
    split
    next e he =>
      refine ⟨rfl, fun _ _ h => h, fun _ _ h _ => h, fun _ => rfl, ?_, fun _ => kept_refl _, rfl, rfl⟩
      intro n
      dsimp only
      rw [getElem?_insert_eq]
      split
      next h =>
        subst h
        obtain ⟨hv, -⟩ := Option.filter_eq_some_iff.mp he
        rw [hv]
        rfl
      next => rfl
    next => exact refl now v

/-- Marks a fold of kept changes leaves are kept. -/
theorem noteCarried (marks : ExtTreeMap String StopMark) (birth : String × String) (publisher : String)
    (version : Nat) (n : String) :
    Option.Rel StopMark.Kept marks[n]? (DigestView.noteCarried marks birth publisher version)[n]? := by
  unfold DigestView.noteCarried
  split
  next mark hm =>
    split
    next =>
      rw [getElem?_insert_eq]
      split
      next h =>
        subst h
        rw [hm]
        exact .some ⟨rfl, fun _ hd => hd, fun l hl => ⟨l, hl, Nat.le_refl _⟩⟩
      next => exact kept_refl _
    next => exact kept_refl _
  next => exact kept_refl _

theorem foldl_noteCarried (births : List (String × String)) (publisher : String) (version : Nat)
    (marks : ExtTreeMap String StopMark) (n : String) : Option.Rel StopMark.Kept marks[n]?
      (births.foldl (fun marks birth => DigestView.noteCarried marks birth publisher version) marks)[n]? := by
  induction births generalizing marks with
  | nil => exact kept_refl _
  | cons birth births ih => exact kept_trans (noteCarried marks birth publisher version n) (ih _)

theorem noteStopsCarried (now : Nat) (v : DigestView) (target : Target) :
    Touches now v (v.noteStopsCarried target) := by
  refine ⟨rfl, fun _ _ h => h, fun _ _ h _ => h, fun _ => rfl, fun _ => rfl, ?_, rfl, rfl⟩
  intro n
  unfold DigestView.noteStopsCarried
  dsimp only
  split
  next => exact kept_trans (foldl_noteCarried _ _ _ _ n) (foldl_noteCarried _ _ _ _ n)
  next => exact foldl_noteCarried _ _ _ _ n

section None

variable {n : String}

theorem member_none (h : Touches now v w) (hv : v.inner.map[n]? = none) : w.inner.map[n]? = none := by
  have hinner := h.inner n
  rw [hv, Option.map_none, Option.map_eq_none_iff] at hinner
  exact hinner

theorem mark_none (h : Touches now v w) (hv : v.stoppedMarks[n]? = none) : w.stoppedMarks[n]? = none := by
  have hmarks := h.marks n
  rw [hv] at hmarks
  cases hw : w.stoppedMarks[n]? with
  | none => rfl
  | some m =>
    rw [hw] at hmarks
    cases hmarks

theorem projected_none (h : Touches now v w) (hv : v.projected[n]? = none) : w.projected[n]? = none := by
  have hprojected := h.projected n
  rw [hv, Option.isSome_none, Option.isSome_eq_false_iff, Option.isNone_iff_eq_none] at hprojected
  exact hprojected

end None

end Touches

namespace DigestView

/-- A mesh deletion's departures, one after another. -/
inductive Leaves (now : Nat) (v : DigestView) : DigestView → Prop where
  | refl : Leaves now v v
  | touched {u w : DigestView} (h : Leaves now v u) (ht : Touches now u w) : Leaves now v w
  | left {u : DigestView} {op : LifecycleOp} (h : Leaves now v u) (hdel : u.deleted[op.nodeId]? = none) :
    Leaves now v (u.leaveQuietly op now)

/-- `u` is `v`, touched, or with the stop of `n` ended. -/
def Cleared (now : Nat) (v : DigestView) (n : String) (u : DigestView) : Prop :=
  Touches now v u ∨ ∃ w m, Touches now v w ∧ w.stoppedMarks[n]? = some m ∧ u = w.endStop n

/-- An overlay that may open: its birth is not deleted, and its identity neither ended nor is held. -/
structure Opens (u : DigestView) (op : LifecycleOp) : Prop where
  deleted : u.deleted[op.nodeId]? = none
  ended : op.identity ∉ u.endedOverlays
  held : ∀ o ∈ u.inFlight, o.key = op.key → o.identity ≠ op.identity

/-- Everything a call can do to a view. -/
inductive Moves (now : Nat) (v : DigestView) : ViewCall → DigestView → Prop where
  | touched {call : ViewCall} {w : DigestView} (h : Touches now v w) : Moves now v call w
  | stopEnded {via : Via} {d : MeshDigest} {u : DigestView} (h : Cleared now v d.node.nodeId u) :
    Moves now v (.record via d) u
  | held {via : Via} {d d' : MeshDigest} {u : DigestView} {heardAt : Nat} {heard : Heard}
    (h : Cleared now v d.node.nodeId u) (hdel : u.deleted[d.node.nodeId]? = none)
    (hmark : u.stoppedMarks[d.node.nodeId]? = none) (hnode : d'.node = d.node) :
    Moves now v (.record via d) (u.hold d' heardAt heard)
  | projected {d : MeshDigest} {e : MeshDigest × Nat} :
    Moves now v (.holdProjected d) { v with projected := v.projected.insert d.node.nodeId e }
  | opened {op : LifecycleOp} {u : DigestView} (h : Touches now v u) (ho : u.Opens op) :
    Moves now v (.deleting op) { u with inFlight := u.inFlight.put op }
  | stopped {op : LifecycleOp} {carried : Option (String × Nat)} {u : DigestView} {mark : StopMark}
    (h : Touches now v u) (ho : u.Opens op) (hmark : mark.incarnation = op.incarnation)
    (hown : v.own ≠ some op.nodeId)
    (hbirth : ∀ d, v.heldDigest op.nodeId = some d → d.node.incarnation = op.incarnation) :
    Moves now v (.stopped op carried) (u.stop op mark)
  | rejoined {call : ViewCall} {n : String} {m : StopMark} {w : DigestView} (hn : n ∈ call.names)
    (hm : v.stoppedMarks[n]? = some m) (h : Touches now (v.endStop n) w ∨
      ∃ entry, Touches now ((v.endStop n).rehold n entry) w) :
    Moves now v call w
  | departed {op : LifecycleOp} {u : DigestView} (h : Touches now v u) (hdel : u.deleted[op.nodeId]? = none) :
    Moves now v (.depart op) (u.leave op now)
  | meshLeft {mesh buildId : String} {atRafkaMs : Nat} {w : DigestView} (h : Leaves now v w) :
    Moves now v (.departMeshBirths mesh buildId atRafkaMs) w
  | concluded {byVerdict : List OpKey} {forgotten : List String} {gone : LifecycleOp → Bool}
    (h : ∀ o, gone o = true → o.isStop = false) :
    Moves now v (.deletionsFromFacts byVerdict forgotten) (v.endOverlays gone)

section Moves

variable {now : Nat} {v u w : DigestView} {n : String}

theorem endStop_marks (v : DigestView) (id n : String) :
    (v.endStop id).stoppedMarks[n]? = if id = n then none else v.stoppedMarks[n]? :=
  getElem?_erase_eq v.stoppedMarks id n

theorem mem_endOverlays {gone : LifecycleOp → Bool} {o : LifecycleOp} :
    o ∈ (v.endOverlays gone).inFlight ↔ o ∈ v.inFlight ∧ gone o = false := by
  unfold endOverlays
  rw [OpenOverlays.mem_retain, Bool.not_eq_true']

theorem mem_endStop {o : LifecycleOp} : o ∈ (v.endStop n).inFlight ↔
    o ∈ v.inFlight ∧ ¬ (o.isStop = true ∧ o.nodeId = n) := by
  unfold endStop
  rw [mem_endOverlays]
  simp only [Bool.and_eq_false_iff, beq_eq_false_iff_ne, not_and_or, Bool.not_eq_true, unmark]

theorem mem_leave {op o : LifecycleOp} : o ∈ (u.leave op now).inFlight ↔
    (o ∈ u.inFlight ∧ ¬ (o.isStop = true ∧ o.nodeId = op.nodeId)) ∧ o.key ≠ op.key := by
  unfold leave
  rw [OpenOverlays.mem_close, mem_endStop]

theorem mem_leaveQuietly {op o : LifecycleOp} : o ∈ (u.leaveQuietly op now).inFlight ↔
    (o ∈ u.inFlight ∧ ¬ (o.isStop = true ∧ o.nodeId = op.nodeId)) ∧ o.nodeId ≠ op.nodeId := by
  unfold leaveQuietly
  rw [OpenOverlays.mem_retain, mem_endStop, bne_iff_ne]

theorem Cleared.after (ht : Touches now v u) (h : Cleared now u n w) : Cleared now v n w := by
  rcases h with h | ⟨x, m, hx, hm, rfl⟩
  · exact Or.inl (ht.trans h)
  · exact Or.inr ⟨x, m, ht.trans hx, hm, rfl⟩

/-- A digest is refused because its birth is stopped, or no stop of its node is left. -/
theorem stoppedRefuses_cases (v : DigestView) (d : MeshDigest) (via : Via) (now : Nat) :
    ((v.stoppedRefuses d via now).2 = true ∧ Touches now v (v.stoppedRefuses d via now).1) ∨
      ((v.stoppedRefuses d via now).2 = false ∧ Cleared now v d.node.nodeId (v.stoppedRefuses d via now).1 ∧
        (v.stoppedRefuses d via now).1.stoppedMarks[d.node.nodeId]? = none ∧
        (v.stoppedRefuses d via now).1.deleted = v.deleted) := by
  have hended : (v.endStop d.node.nodeId).stoppedMarks[d.node.nodeId]? = none := by
    rw [endStop_marks, if_pos rfl]
  unfold stoppedRefuses
  split
  next hnext =>
    have hmark : ∃ m, v.stoppedMarks[d.node.nodeId]? = some m := by
      unfold nextCycle at hnext
      cases hm : v.stoppedMarks[d.node.nodeId]? with
      | none => simp [hm] at hnext
      | some m => exact ⟨m, rfl⟩
    obtain ⟨m, hm⟩ := hmark
    exact Or.inr ⟨rfl, Or.inr ⟨v, m, Touches.refl now v, hm, rfl⟩, hended, rfl⟩
  next =>
    split
    next hm => exact Or.inr ⟨rfl, Or.inl (Touches.refl now v), hm, rfl⟩
    next mark hm =>
      split
      next => exact Or.inr ⟨rfl, Or.inr ⟨v, mark, Touches.refl now v, hm, rfl⟩, hended, rfl⟩
      next => exact Or.inl ⟨rfl, Touches.mark hm (StopMark.Kept.keep mark d via now)⟩

theorem keepReportedStatus_node (v : DigestView) (d : MeshDigest) : (v.keepReportedStatus d).node = d.node := by
  unfold keepReportedStatus
  split
  next =>
    split
    next =>
      split
      next => rfl
      next => rfl
    next => rfl
  next => rfl

/-- Under the hold of the members a digest is refused or held. -/
theorem install_cases (v : DigestView) (via : Via) (d : MeshDigest) (now : Nat) :
    (v.install via d now).1 = v ∨
      ∃ d' heardAt heard, d'.node = d.node ∧ (v.install via d now).1 = v.hold d' heardAt heard := by
  have hforwarded : (v.installForwarded d now).1 = v ∨
      ∃ d' heardAt heard, d'.node = d.node ∧ (v.installForwarded d now).1 = v.hold d' heardAt heard := by
    unfold installForwarded
    split
    next => exact Or.inl rfl
    next => exact Or.inr ⟨_, _, _, v.keepReportedStatus_node d, rfl⟩
  cases via with
  | heartbeat =>
    simp only [install, installHeartbeat]
    split
    next => exact Or.inl rfl
    next => exact Or.inr ⟨_, _, _, v.keepReportedStatus_node d, rfl⟩
  | forwarded => exact hforwarded
  | join => exact hforwarded
  | topology =>
    simp only [install, installTopology]
    split
    next => exact Or.inr ⟨d, _, _, rfl, rfl⟩
    next =>
      split
      next => exact Or.inl rfl
      next => exact Or.inr ⟨d, _, _, rfl, rfl⟩

theorem getElem?_none_of_contains {β : Type} {m : ExtTreeMap String β} {n : String}
    (h : ¬ m.contains n = true) : m[n]? = none := by
  simpa using h

theorem recordVia_moves (v : DigestView) (via : Via) (d : MeshDigest) (now : Nat) :
    Moves now v (.record via d) (v.recordVia via d now).1 := by
  have hexpire := Touches.expire now v
  unfold recordVia
  generalize v.expireDeletedAt now = u at hexpire ⊢
  dsimp only
  split
  next =>
    split
    next => exact .touched (hexpire.trans (Touches.noteReturned now u d))
    next => exact .touched hexpire
  next hdel =>
    have hnone := getElem?_none_of_contains hdel
    split
    next => exact .touched hexpire
    next =>
      have hcases := u.stoppedRefuses_cases d via now
      generalize u.stoppedRefuses d via now = out at hcases ⊢
      obtain ⟨w, refused⟩ := out
      rcases hcases with ⟨rfl, ht⟩ | ⟨rfl, hc, hmark, hsame⟩
      · exact .touched (hexpire.trans ht)
      · have hstopped : w.isStopped d = false := by
          unfold isStopped holdsStopped
          rw [hmark]
          rfl
        have hcleared := hc.after hexpire
        simp only [hstopped, Bool.false_eq_true, if_false]
        rcases w.install_cases via d now with hw | ⟨d', heardAt, heard, hnode, hw⟩
        · rw [hw]
          exact .stopEnded hcleared
        · rw [hw]
          have hdeleted : w.deleted[d.node.nodeId]? = none := by
            rw [hsame]
            exact hnone
          exact .held hcleared hdeleted hmark hnode

theorem opens_of_admitOverlay {op : LifecycleOp} (hdel : u.deleted[op.nodeId]? = none)
    (h : admitOverlay op u.inFlight.map[op.key]? (u.endedOverlays.contains op.identity) = true) : u.Opens op := by
  unfold admitOverlay at h
  simp only [Bool.and_eq_true, Bool.not_eq_true', Option.any_eq_false] at h
  refine ⟨hdel, ?_, ?_⟩
  · intro hmem
    rw [ExtTreeSet.mem_iff_contains, h.1] at hmem
    simp at hmem
  · intro o ho hkey
    rw [OpenOverlays.mem_def, hkey] at ho
    simpa using h.2 o ho

theorem holdProjectedAt_moves (v : DigestView) (d : MeshDigest) (now : Nat) :
    Moves now v (.holdProjected d) (v.holdProjectedAt d now).1 := by
  unfold holdProjectedAt
  dsimp only
  split
  next => exact .touched (Touches.refl now v)
  next =>
    split
    next => exact .projected
    next =>
      split
      next =>
        split
        next => exact .projected
        next => exact .touched (Touches.refl now v)
      next =>
        split
        next => exact .touched (Touches.refl now v)
        next => exact .projected

theorem deleting_moves (v : DigestView) (op : LifecycleOp) (now : Nat) :
    Moves now v (.deleting op) (v.deleting op now).1 := by
  have hexpire := Touches.expire now v
  unfold deleting
  generalize v.expireDeletedAt now = u at hexpire ⊢
  dsimp only
  split
  next => exact .touched hexpire
  next hdel =>
    split
    next hadmit => exact .opened hexpire (opens_of_admitOverlay (getElem?_none_of_contains hdel) hadmit)
    next => exact .touched hexpire

theorem takeStop_cases (v : DigestView) (op : LifecycleOp) (carried : Option (String × Nat))
    (heldDigest : Option MeshDigest) (now : Nat) (hdel : v.deleted[op.nodeId]? = none) :
    Touches now v (v.takeStop op carried heldDigest).1 ∨
      (v.Opens op ∧ ∃ mark, mark.incarnation = op.incarnation ∧
        (v.takeStop op carried heldDigest).1 = v.stop op mark) := by
  unfold takeStop
  dsimp only
  split
  next hadmit => exact Or.inr ⟨opens_of_admitOverlay hdel hadmit, _, rfl, rfl⟩
  next =>
    split
    next => exact Or.inl (Touches.refl now v)
    next =>
      split
      next mark hm =>
        split
        next => exact Or.inl (Touches.mark hm ⟨rfl, fun _ hd => hd, fun l hl => ⟨l, hl, Nat.le_refl _⟩⟩)
        next => exact Or.inl (Touches.refl now v)
      next => exact Or.inl (Touches.refl now v)

theorem woken_deleted (v : DigestView) (now : Nat) : (v.woken now).deleted = v.deleted := by
  rcases v.woken_cases now with hw | hw
  · rw [hw]
  · rw [hw]
    rfl

theorem woken_heldDigest (v : DigestView) (now : Nat) (id : String) :
    (v.woken now).heldDigest id = v.heldDigest id := by
  rcases v.woken_cases now with hw | hw
  · rw [hw]
  · rw [hw]
    simp only [heldDigest, restartSilence, HeldMembers.restartSilence_map, ExtTreeMap.getElem?_map, Option.map_map]
    rfl

theorem stoppedCarried_moves (v : DigestView) (op : LifecycleOp) (carried : Option (String × Nat)) (now : Nat) :
    Moves now v (.stopped op carried) (v.stoppedCarried op carried now).1 := by
  have hexpire := Touches.expire now v
  have hheld : (v.expireDeletedAt now).heldDigest op.nodeId = v.heldDigest op.nodeId := rfl
  have hsame : (v.expireDeletedAt now).own = v.own := rfl
  unfold stoppedCarried
  generalize v.expireDeletedAt now = u at hexpire hheld hsame ⊢
  dsimp only
  split
  next => exact .touched hexpire
  next hdel =>
    split
    next => exact .touched hexpire
    next hown =>
      have hwoken : Touches now v (u.woken now) := hexpire.trans (Touches.woken now u)
      have hnone : (u.woken now).deleted[op.nodeId]? = none := by
        rw [woken_deleted]
        exact getElem?_none_of_contains hdel
      split
      next => exact .touched hwoken
      next hother =>
        rw [Bool.not_eq_true, Option.any_eq_false] at hother
        rcases (u.woken now).takeStop_cases op carried ((u.woken now).heldDigest op.nodeId) now hnone with
          ht | ⟨hopens, mark, hmark, hstop⟩
        · exact .touched (hwoken.trans ht)
        · rw [hstop]
          refine .stopped hwoken hopens hmark (hsame ▸ hown) ?_
          intro d hd
          rw [← hheld, ← woken_heldDigest u now] at hd
          simpa using hother d hd

theorem takeJoined_moves (v : DigestView) (op : LifecycleOp) (already : Option NodeStatus) (now : Nat) :
    Moves now v (.joined op already) (v.takeJoined op already now).1 := by
  have hnames : op.nodeId ∈ (ViewCall.joined op already).names := List.mem_singleton_self _
  unfold takeJoined
  dsimp only
  split
  next mark hm =>
    obtain ⟨hmark, -⟩ := Option.filter_eq_some_iff.mp hm
    split
    next d hd =>
      refine .rejoined hnames hmark (Or.inr ⟨⟨d, now, .direct⟩, ?_⟩)
      exact Touches.authorStatus now _ op.nodeId op.incarnation _
    next => exact .rejoined hnames hmark (Or.inl (Touches.refl now _))
  next =>
    split
    next => exact .touched (Touches.authorStatus now v _ _ _)
    next => exact .touched (Touches.refl now v)

theorem endStop_unmark (v : DigestView) (id : String) : (v.unmark id).endStop id = v.endStop id := by
  have herase : (v.stoppedMarks.erase id).erase id = v.stoppedMarks.erase id := by
    refine ExtTreeMap.ext_getElem? fun n => ?_
    rw [getElem?_erase_eq, getElem?_erase_eq]
    split
    next => rfl
    next => rfl
  simp only [endStop, unmark, endOverlays, herase]

theorem stoppedEntry_moves (v : DigestView) (d : MeshDigest) (target : Target) (now : Nat) :
    Moves now v (.stoppedEntry d target) (v.stoppedEntry d target).1 := by
  have hnames : d.node.nodeId ∈ (ViewCall.stoppedEntry d target).names := List.mem_singleton_self _
  unfold stoppedEntry
  split
  next => exact .touched (Touches.refl now v)
  next mark hm =>
    obtain ⟨hmark, -⟩ := Option.filter_eq_some_iff.mp hm
    dsimp only
    split
    next =>
      simp only [stopEndedInProjection, endStop_unmark]
      split
      next again _ =>
        split
        next => exact .rejoined hnames hmark (Or.inr ⟨again, Touches.refl now _⟩)
        next => exact .rejoined hnames hmark (Or.inl (Touches.refl now _))
      next => exact .rejoined hnames hmark (Or.inl (Touches.refl now _))
    next => exact .touched (Touches.refl now v)

theorem departAt_moves (v : DigestView) (op : LifecycleOp) (now : Nat) :
    Moves now v (.depart op) (v.departAt op now).1 := by
  have hexpire := Touches.expire now v
  unfold departAt
  generalize v.expireDeletedAt now = u at hexpire ⊢
  dsimp only
  split
  next => exact .touched hexpire
  next hdel => exact .departed hexpire hdel

theorem Leaves.departQuiet (h : Leaves now v u) (op : LifecycleOp) : Leaves now v (u.departQuiet op now).1 := by
  unfold DigestView.departQuiet
  split
  next => exact h
  next hdel => exact .left h hdel

theorem Leaves.roster (mesh buildId : String) (atRafkaMs : Nat) (roster : List (String × Leaver))
    (h : Leaves now v u) : Leaves now v (roster.foldl (departEntry mesh buildId atRafkaMs now) u) := by
  induction roster generalizing u with
  | nil => exact h
  | cons entry roster ih =>
    refine ih ?_
    unfold departEntry
    dsimp only
    split
    next => exact h
    next => exact h.departQuiet _

theorem departMeshBirths_moves (v : DigestView) (mesh buildId : String) (atRafkaMs now : Nat) :
    Moves now v (.departMeshBirths mesh buildId atRafkaMs) (v.departMeshBirths mesh buildId atRafkaMs now) := by
  have hwoken : Leaves now v (v.woken now) := .touched .refl (Touches.woken now v)
  refine .meshLeft ?_
  unfold departMeshBirths
  dsimp only
  split
  next =>
    have hexpired : Leaves now v ((v.woken now).expireDeletedAt now) := .touched hwoken (Touches.expire now _)
    exact .touched (hexpired.roster mesh buildId atRafkaMs _) (Touches.aside rfl rfl rfl rfl rfl rfl rfl)
  next =>
    exact .touched (hwoken.roster mesh buildId atRafkaMs _) (Touches.aside rfl rfl rfl rfl rfl rfl rfl)

theorem status_moves {call : ViewCall} (p : Bool) (id incarnation : String) (status : NodeStatus) :
    Moves now v call (if p then ((v.authorStatus id incarnation status).1, true) else (v, false)).1 := by
  cases p with
  | true => exact .touched (Touches.authorStatus now v id incarnation status)
  | false => exact .touched (Touches.refl now v)

theorem adoptStatus_moves (v : DigestView) (id incarnation mesh : String) (status : NodeStatus) (now : Nat) :
    Moves now v (.adoptStatus id incarnation mesh status) (v.adoptStatus id incarnation mesh status now).1 := by
  have hexpire := Touches.expire now v
  unfold adoptStatus
  generalize v.expireDeletedAt now = u at hexpire ⊢
  dsimp only
  split
  next => exact .touched (Touches.refl now v)
  next =>
    split
    next => exact .touched (Touches.refl now v)
    next =>
      split
      next => exact .touched (Touches.refl now v)
      next =>
        split
        next => exact .touched hexpire
        next =>
          split
          next => exact .touched hexpire
          next =>
            split
            next => exact .touched hexpire
            next => exact .touched (hexpire.trans (Touches.authorStatus now u _ _ _))

/-- What any call does is one of the moves. -/
theorem call_moves (v : DigestView) (now : Nat) (call : ViewCall) : Moves now v call (v.call now call) := by
  cases call with
  | elapse => exact .touched (Touches.refl now v)
  | record via d => exact v.recordVia_moves via d now
  | holdProjected d => exact v.holdProjectedAt_moves d now
  | deleting op => exact v.deleting_moves op now
  | stopped op carried => exact v.stoppedCarried_moves op carried now
  | joined op already => exact v.takeJoined_moves op already now
  | depart op => exact v.departAt_moves op now
  | departMeshBirths mesh buildId atRafkaMs => exact v.departMeshBirths_moves mesh buildId atRafkaMs now
  | deletionsFromFacts byVerdict forgotten =>
    refine .concluded ?_
    intro o ho
    simp only [Bool.and_eq_true, Bool.not_eq_true'] at ho
    exact ho.1
  | noteStopsCarried target => exact .touched (Touches.noteStopsCarried now v target)
  | stoppedEntry d target => exact v.stoppedEntry_moves d target now
  | started id incarnation mesh => exact status_moves _ id incarnation .ready
  | reported id incarnation status => exact status_moves _ id incarnation status
  | admitted op status => exact status_moves _ op.nodeId op.incarnation status
  | adoptStatus id incarnation mesh status => exact v.adoptStatus_moves id incarnation mesh status now
  | expireDeleted => exact .touched (Touches.expire now v)
  | restartSilence => exact .touched (Touches.restartSilence now v)
  | woken => exact .touched (Touches.woken now v)
  | markAwake => exact .touched ((Touches.woken now v).trans (Touches.aside rfl rfl rfl rfl rfl rfl rfl))
  | holdRecovering | returnedReported | takePrimary | meshStatus | configure =>
    exact .touched (Touches.aside rfl rfl rfl rfl rfl rfl rfl)

end Moves

end DigestView

end DistributedMesh
