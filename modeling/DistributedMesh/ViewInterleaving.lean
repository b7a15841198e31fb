import DistributedMesh.ViewDeleted
import DistributedMesh.ViewThreads

namespace DistributedMesh

open GuardedRuns
open KeyedMaps

namespace DigestView

/-- A node is held at most one way: deleted, stopped or as a member. -/
structure Apart (v : DigestView) (n : String) : Prop where
  deleted : v.deleted[n]? ≠ none → v.inner.map[n]? = none ∧ v.stoppedMarks[n]? = none
  marked : v.stoppedMarks[n]? ≠ none → v.inner.map[n]? = none

namespace Apart

variable {now : Nat} {u v w : DigestView} {n : String} {op : LifecycleOp}

theorem of_less (h : v.Apart n) (hdel : v.deleted[n]? = none → w.deleted[n]? = none)
    (hinner : v.inner.map[n]? = none → w.inner.map[n]? = none)
    (hmark : v.stoppedMarks[n]? = none → w.stoppedMarks[n]? = none) : w.Apart n where
  deleted hw := by
    obtain ⟨hmember, hunmarked⟩ := h.deleted fun hv => hw (hdel hv)
    exact ⟨hinner hmember, hmark hunmarked⟩
  marked hw := hinner (h.marked fun hv => hw (hmark hv))

theorem of_member (hdel : v.deleted[n]? = none) (hmark : v.stoppedMarks[n]? = none) : v.Apart n :=
  ⟨fun h => absurd hdel h, fun h => absurd hmark h⟩

theorem of_unheld (hinner : v.inner.map[n]? = none) (h : v.deleted[n]? = none ∨ v.stoppedMarks[n]? = none) :
    v.Apart n := by
  refine ⟨fun hdel => ⟨hinner, ?_⟩, fun _ => hinner⟩
  exact h.resolve_left hdel

theorem touched (h : v.Apart n) (ht : Touches now v w) : w.Apart n := by
  refine h.of_less ?_ ht.member_none ht.mark_none
  intro hv
  cases hw : w.deleted[n]? with
  | none => rfl
  | some e => rw [ht.deleted n e hw] at hv; simp at hv

theorem endStop (h : v.Apart n) (id : String) : (v.endStop id).Apart n :=
  h.of_less (fun hv => hv) (fun hv => hv) (AddsNothing.endStop v id).mark

theorem cleared {id : String} (h : v.Apart n) (hc : Cleared now v id w) : w.Apart n := by
  rcases hc with ht | ⟨x, m, hx, -, rfl⟩
  · exact h.touched ht
  · exact (h.touched hx).endStop id

/-- A node leaves: what is held of it goes, and of the others nothing changes. -/
theorem left (h : v.Apart n) (hdel : w.deleted = v.deleted.insert op.nodeId (op, now))
    (ha : AddsNothing v w n) (hself : w.inner.map[op.nodeId]? = none ∧ w.stoppedMarks[op.nodeId]? = none) :
    w.Apart n := by
  by_cases hn : op.nodeId = n
  · subst hn
    exact of_unheld hself.1 (Or.inr hself.2)
  · refine h.of_less ?_ ha.member ha.mark
    intro hv
    rw [hdel]
    exact AddsNothing.inserted hn hv

theorem leaves (h : v.Apart n) (hl : Leaves now v w) : w.Apart n := by
  induction hl with
  | refl => exact h
  | touched _ ht ih => exact ih.touched ht
  | @left u op _ _ ih =>
    exact ih.left rfl (AddsNothing.leaveQuietly u op now) ⟨Barrier.erase_self _ _, Barrier.erase_self _ _⟩

theorem rejoined {id : String} {m : StopMark} (h : ∀ n, v.Apart n) (hm : v.stoppedMarks[id]? = some m)
    (hr : Touches now (v.endStop id) w ∨ ∃ entry, Touches now ((v.endStop id).rehold id entry) w) : w.Apart n := by
  rcases hr with ht | ⟨entry, ht⟩
  · exact ((h n).endStop id).touched ht
  · refine Apart.touched ?_ ht
    by_cases hn : id = n
    · subst hn
      -- A stopped node is held deleted by no departure.
      have hdel : v.deleted[id]? = none := by
        by_contra hdel
        rw [((h id).deleted hdel).2] at hm
        simp at hm
      refine of_member hdel ?_
      exact Barrier.erase_self _ _
    · refine ((h n).endStop id).of_less (fun hv => hv) ?_ (fun hv => hv)
      exact AddsNothing.inserted hn

/-- Every call keeps every node held at most one way. -/
theorem moves {call : ViewCall} (h : ∀ n, v.Apart n) (hm : Moves now v call w) (n : String) : w.Apart n := by
  cases hm with
  | touched ht => exact (h n).touched ht
  | stopEnded hc => exact (h n).cleared hc
  | @held via d d' u heardAt heard hc hdel hmark hnode =>
    by_cases hn : d.node.nodeId = n
    · subst hn
      exact of_member hdel hmark
    · refine ((h n).cleared hc).of_less (fun hv => hv) ?_ (fun hv => hv)
      exact AddsNothing.inserted (hnode ▸ hn)
  | projected => exact (h n).of_less (fun hv => hv) (fun hv => hv) fun hv => hv
  | opened ht _ => exact ((h n).touched ht).of_less (fun hv => hv) (fun hv => hv) fun hv => hv
  | @stopped op carried u mark ht ho _ _ _ =>
    by_cases hn : op.nodeId = n
    · subst hn
      exact of_unheld (Barrier.erase_self _ _) (Or.inl ho.deleted)
    · have ha := AddsNothing.stop u mark hn
      exact ((h n).touched ht).of_less (fun hv => hv) ha.member ha.mark
  | rejoined _ hm hr => exact rejoined h hm hr
  | @departed op u ht _ =>
    exact ((h n).touched ht).left rfl (AddsNothing.leave u op now) ⟨Barrier.erase_self _ _, Barrier.erase_self _ _⟩
  | meshLeft hl => exact (h n).leaves hl
  | concluded _ => exact (h n).of_less (fun hv => hv) (fun hv => hv) fun hv => hv

end Apart

end DigestView

/-- In every view a run of calls reaches, a node is held at most one way. -/
theorem World.apart_run (retention stalenessFloor now : Nat) (calls : List ViewCall) (n : String) :
    ((fresh retention stalenessFloor now).run calls).view.Apart n := by
  have hfresh : ∀ n, (fresh retention stalenessFloor now).view.Apart n := by
    intro n
    refine DigestView.Apart.of_member ?_ ?_
    · simp [fresh, DigestView.withFloor]
    · simp [fresh, DigestView.withFloor]
  generalize fresh retention stalenessFloor now = w at hfresh ⊢
  induction calls generalizing w with
  | nil => exact hfresh n
  | cons call calls ih =>
    refine ih (w.step call) fun n => ?_
    have hmoves := w.view.call_moves w.now call
    rw [← step_view] at hmoves
    exact DigestView.Apart.moves hfresh hmoves n

/-- `w` holds the departures, members and stops of `v`. -/
structure SameBirths (v w : DigestView) : Prop where
  retention : w.retention = v.retention
  deleted : w.deleted = v.deleted
  inner : w.inner = v.inner
  marks : w.stoppedMarks = v.stoppedMarks

section Holds

variable {n : String} {v w : DigestView} {free : Bool}

/-- What one hold of a thread that records a digest does to the births. -/
inductive Recording.Change (r : Recording n) (v : DigestView) : RecordPoint → DigestView → Prop where
  | aside {p : RecordPoint} {w : DigestView} (h : SameBirths v w) : Change r v p w
  | expired : Change r v .expire (v.expireDeletedAt r.now)
  | kept {again : Bool} {mark : StopMark} (hm : v.stoppedMarks[n]? = some mark) :
    Change r v (.mark again) { v with stoppedMarks := v.stoppedMarks.insert n (mark.keep r.digest r.via r.now) }
  | unmarked {again : Bool} : Change r v (.unmark again) (v.unmark n)
  | held {d : MeshDigest} {heardAt : Nat} {heard : Heard} (hnode : d.node = r.digest.node) :
    Change r v .install (v.hold d heardAt heard)

theorem Recording.step_change (r : Recording n) (free : Bool) (v : DigestView) (p : RecordPoint) :
    r.Change v p (r.step free v p).1 := by
  have hsame : SameBirths v v := ⟨rfl, rfl, rfl, rfl⟩
  cases p with
  | expire => exact .expired
  | departed =>
    unfold step
    dsimp only
    split
    next => exact .aside hsame
    next => exact .aside hsame
  | afterDeletion =>
    unfold step
    dsimp only
    split
    next => exact .aside hsame
    next => exact .aside hsame
  | mark again =>
    unfold step
    dsimp only
    split
    next => exact .aside hsame
    next mark hm =>
      split
      next => exact .aside hsame
      next => exact .kept hm
  | unmark again => exact .unmarked
  | install =>
    rcases v.install_cases r.via r.digest r.now with hw | ⟨d, heardAt, heard, hnode, hw⟩
    · exact .aside (by rw [step, hw]; exact hsame)
    · rw [step, hw]
      exact .held hnode
  | returned | clear => exact .aside ⟨rfl, rfl, rfl, rfl⟩
  | recovering | nextCycle | members | recheck | done => exact .aside hsame

/-- A thread is past the deletion check only by finding no departure held. -/
theorem Recording.passed_step {r : Recording n} {p : RecordPoint} (h : (r.step free v p).2.passed = true) :
    p.passed = true ∨ (r.step free v p).1.deleted[n]? = none := by
  cases p with
  | departed =>
    refine Or.inr ?_
    unfold step at h ⊢
    dsimp only at h ⊢
    split at h
    next => split at h <;> simp [RecordPoint.passed] at h
    next hdel =>
      rw [if_neg hdel]
      exact DigestView.getElem?_none_of_contains hdel
  | expire => simp [step, RecordPoint.passed] at h
  | afterDeletion =>
    unfold step at h
    dsimp only at h
    split at h <;> simp [RecordPoint.passed] at h
  | returned => simp [step, RecordPoint.passed] at h
  | recovering => exact Or.inl rfl
  | nextCycle again =>
    cases again with
    | false => exact Or.inl rfl
    | true =>
      unfold step at h
      dsimp only at h
      split at h <;> simp [RecordPoint.passed] at h
  | mark again =>
    cases again with
    | false => exact Or.inl rfl
    | true =>
      unfold step at h
      dsimp only at h
      split at h
      next => simp [RecordPoint.past, RecordPoint.passed] at h
      next => split at h <;> simp [RecordPoint.passed] at h
  | unmark again =>
    cases again with
    | false => exact Or.inl rfl
    | true => simp [step, RecordPoint.passed] at h
  | clear again =>
    cases again with
    | false => exact Or.inl rfl
    | true => simp [step, RecordPoint.past, RecordPoint.passed] at h
  | members => exact Or.inl rfl
  | recheck => exact Or.inl rfl
  | install => exact Or.inl rfl
  | done => simp [step, RecordPoint.passed] at h

/-- A thread comes to install a digest only by finding its birth not stopped, under the hold. -/
theorem Recording.install_step {r : Recording n} {p : RecordPoint} (h : (r.step free v p).2 = .install) :
    (r.step free v p).1.holdsStopped n r.digest.node.incarnation = false := by
  cases p with
  | recheck =>
    unfold step at h ⊢
    dsimp only at h ⊢
    split at h
    next => simp at h
    next hstopped =>
      unfold DigestView.isStopped at hstopped
      rw [r.names] at hstopped
      simpa using hstopped
  | departed =>
    unfold step at h
    dsimp only at h
    split at h
    next => split at h <;> simp at h
    next => simp at h
  | afterDeletion =>
    unfold step at h
    dsimp only at h
    split at h <;> simp at h
  | recovering =>
    unfold step at h
    dsimp only at h
    split at h <;> simp at h
  | nextCycle again =>
    unfold step at h
    dsimp only at h
    split at h <;> simp at h
  | mark again =>
    unfold step at h
    dsimp only at h
    split at h
    next => cases again <;> simp [RecordPoint.past] at h
    next => split at h <;> simp at h
  | clear again => cases again <;> simp [step, RecordPoint.past] at h
  | members =>
    unfold step at h
    dsimp only at h
    split at h <;> simp at h
  | expire | returned | unmark | install | done => simp [step] at h

/-- No member of the birth is held. -/
def NoMember (n incarnation : String) (v : DigestView) : Prop :=
  ∀ held, v.inner.map[n]? = some held → held.digest.node.incarnation ≠ incarnation

/-- A stop is taken where it marks its birth. -/
theorem Stopping.taken_step {r : Stopping n} {p : StopPoint} (h : (r.step free v p).2.taken = true) :
    p.taken = true ∨ ∃ held, p = .mark held := by
  have hheard : ∀ held, (r.heard held).taken = false := by
    intro held
    unfold heard
    split <;> rfl
  cases p with
  | mark held => exact Or.inr ⟨held, rfl⟩
  | unproject | members => exact Or.inl rfl
  | done taken => exact Or.inl h
  | expire | projectedSilence => simp [step, StopPoint.taken, StopPoint.leaving] at h
  | departed | own | awake | silence =>
    unfold step at h
    dsimp only at h
    split at h <;> simp [StopPoint.taken, StopPoint.leaving] at h
  | member =>
    unfold step at h
    dsimp only at h
    split at h
    next =>
      split at h
      next => simp [hheard] at h
      next => simp [StopPoint.taken, StopPoint.leaving] at h
    next => simp [StopPoint.taken, StopPoint.leaving] at h
  | projected => simp [step, hheard] at h
  | overlay held =>
    unfold step at h
    dsimp only at h
    split at h
    next => simp [StopPoint.taken, StopPoint.leaving] at h
    next =>
      split at h
      next => simp [StopPoint.taken] at h
      next => split at h <;> simp [StopPoint.taken, StopPoint.leaving] at h
  | carry =>
    unfold step at h
    dsimp only at h
    split at h
    next => split at h <;> simp [StopPoint.taken] at h
    next => simp [StopPoint.taken] at h

/-- A stop once taken leaves the marks alone. -/
theorem Stopping.marks_step {r : Stopping n} {p : StopPoint} (h : p.taken = true) :
    (r.step free v p).1.stoppedMarks = v.stoppedMarks := by
  cases p with
  | unproject | done => rfl
  | members =>
    unfold step
    dsimp only
    split
    next => rfl
    next => rfl
  | _ => simp [StopPoint.taken, StopPoint.leaving] at h

namespace Recording.Change

variable {r : Recording n} {p : RecordPoint} {incarnation : String}

theorem retention (h : r.Change v p w) : w.retention = v.retention := by
  cases h with
  | aside h => exact h.retention
  | expired | kept | unmarked | held => rfl

theorem deleted_none (h : r.Change v p w) (hv : v.deleted[n]? = none) : w.deleted[n]? = none := by
  cases h with
  | aside h =>
    rw [h.deleted]
    exact hv
  | expired =>
    rw [DigestView.expireDeletedAt_deleted, hv]
    rfl
  | kept | unmarked | held => exact hv

/-- A departure within the retention stands. -/
theorem deleted_stands (h : r.Change v p w) {e : LifecycleOp × Nat} (hv : v.deleted[n]? = some e)
    (hr : r.now - e.2 < v.retention) : w.deleted[n]? = some e := by
  cases h with
  | aside h =>
    rw [h.deleted]
    exact hv
  | expired =>
    rw [DigestView.expireDeletedAt_deleted, hv]
    simp [hr]
  | kept | unmarked | held => exact hv

theorem inner_eq (h : r.Change v p w) (hp : p ≠ .install) : w.inner = v.inner := by
  cases h with
  | aside h => exact h.inner
  | expired | kept | unmarked => rfl
  | held => exact absurd rfl hp

theorem noMember (h : r.Change v p w) (hv : NoMember n incarnation v)
    (hp : p = .install → r.digest.node.incarnation ≠ incarnation) : NoMember n incarnation w := by
  cases h with
  | aside h =>
    unfold NoMember
    rw [h.inner]
    exact hv
  | expired | kept | unmarked => exact hv
  | @held d heardAt heard hnode =>
    intro held hheld
    have hid : d.node.nodeId = n := by rw [hnode, r.names]
    unfold DigestView.hold at hheld
    dsimp only at hheld
    rw [HeldMembers.insert_map, getElem?_insert_eq, if_pos hid] at hheld
    obtain rfl := Option.some.inj hheld
    dsimp only
    rw [hnode]
    exact hp rfl

/-- A thread that records a digest marks no birth. -/
theorem holdsStopped (h : r.Change v p w) (hw : w.holdsStopped n incarnation = true) :
    v.holdsStopped n incarnation = true := by
  cases h with
  | aside h =>
    unfold DigestView.holdsStopped at hw ⊢
    rw [h.marks] at hw
    exact hw
  | expired | held => exact hw
  | @kept again mark hm =>
    obtain ⟨m, hm', hinc⟩ := DigestView.holdsStopped_iff.mp hw
    dsimp only at hm'
    rw [getElem?_insert_eq, if_pos rfl] at hm'
    obtain rfl := Option.some.inj hm'
    rw [(StopMark.Kept.keep mark _ _ _).incarnation] at hinc
    exact DigestView.holdsStopped_iff.mpr ⟨mark, hm, hinc⟩
  | unmarked =>
    obtain ⟨m, hm, -⟩ := DigestView.holdsStopped_iff.mp hw
    unfold DigestView.unmark at hm
    dsimp only at hm
    rw [DigestView.Barrier.erase_self] at hm
    simp at hm

/-- A stop ends only where a thread clears its mark. -/
theorem stop_stands (h : r.Change v p w) (hv : v.holdsStopped n incarnation = true)
    (hp : p.unmarks = false) : w.holdsStopped n incarnation = true := by
  cases h with
  | aside h =>
    unfold DigestView.holdsStopped at hv ⊢
    rw [h.marks]
    exact hv
  | expired | held => exact hv
  | @kept again mark hm =>
    obtain ⟨m, hm', hinc⟩ := DigestView.holdsStopped_iff.mp hv
    obtain rfl : mark = m := Option.some.inj (hm.symm.trans hm')
    refine DigestView.holdsStopped_iff.mpr ⟨mark.keep r.digest r.via r.now, ?_, ?_⟩
    · dsimp only
      rw [getElem?_insert_eq, if_pos rfl]
    · rw [(StopMark.Kept.keep mark _ _ _).incarnation, hinc]
  | unmarked => simp [RecordPoint.unmarks] at hp

end Recording.Change

end Holds

/-- The thread whose next hold is taken. -/
inductive Choice where
  | main
  | record (i : Nat)

/-- A view, the threads that record digests of node `n`, and where the one that departs or stops it
stands. -/
structure Threads (n : String) (P : Type) where
  view : DigestView
  records : List (Recording n × RecordPoint)
  point : P

namespace Threads

variable {n : String} {P : Type}

/-- No thread has the hold of the members. -/
def free (s : Threads n P) : Bool := s.records.all fun t => !t.2.holds

/-- One thread takes its next hold; a thread that waits for the members stays where it is. -/
def step (main : Bool → DigestView → P → DigestView × P) (s : Threads n P) : Choice → Threads n P
  | .main => ⟨(main s.free s.view s.point).1, s.records, (main s.free s.view s.point).2⟩
  | .record i =>
    match s.records[i]? with
    | none => s
    | some (r, p) => ⟨(r.step s.free s.view p).1, s.records.set i (r, (r.step s.free s.view p).2), s.point⟩

def start (v : DigestView) (records : List (Recording n)) (point : P) : Threads n P :=
  ⟨v, records.map fun r => (r, .expire), point⟩

def run (main : Bool → DigestView → P → DigestView × P) (s : Threads n P) (choices : List Choice) : Threads n P :=
  choices.foldl (step main) s

/-- Every thread that records a digest has returned. -/
def Recorded (s : Threads n P) : Prop := ∀ t ∈ s.records, t.2 = .done

theorem mem_set {α : Type} {l : List α} {i : Nat} {a x : α} (h : x ∈ l.set i a) : x = a ∨ x ∈ l :=
  (List.mem_or_eq_of_mem_set h).symm

/-- A step of the system keeps what a hold of each of its threads keeps. -/
theorem step_cases {main : Bool → DigestView → P → DigestView × P} {s : Threads n P} {Q : Threads n P → Prop}
    (choice : Choice) (hs : Q s)
    (hmain : choice = .main → Q ⟨(main s.free s.view s.point).1, s.records, (main s.free s.view s.point).2⟩)
    (hrecord : ∀ i r p, choice = .record i → s.records[i]? = some (r, p) →
      Q ⟨(r.step s.free s.view p).1, s.records.set i (r, (r.step s.free s.view p).2), s.point⟩) :
    Q (s.step main choice) := by
  cases choice with
  | main => exact hmain rfl
  | record i =>
    cases hi : s.records[i]? with
    | none =>
      simp only [step, hi]
      exact hs
    | some t =>
      simp only [step, hi]
      exact hrecord i t.1 t.2 rfl hi

section Depart

variable {r : Departing n} {s : Threads n DepartPoint}

/-- Where the departure removes the member, no digest that passed the deletion check is short of
leaving its hold of the members. -/
def DepartOk (s : Threads n DepartPoint) : Choice → Prop
  | .main => s.point = .members → s.free = true → ∀ t ∈ s.records, t.2.passed = false
  | .record _ => True

instance (s : Threads n DepartPoint) (choice : Choice) : Decidable (s.DepartOk choice) :=
  match choice with
  | .main => inferInstanceAs (Decidable (s.point = .members → s.free = true → ∀ t ∈ s.records, t.2.passed = false))
  | .record _ => inferInstanceAs (Decidable True)

/-- Outside a departure, a node held deleted is no member and no digest of it passed the deletion
check. -/
def DepartSafe (s : Threads n DepartPoint) : Prop :=
  s.point.leaving = true ∨ (s.view.deleted[n]? ≠ none →
    s.view.inner.map[n]? = none ∧ ∀ t ∈ s.records, t.2.passed = false)

theorem DepartSafe.start {v : DigestView} (h : v.Apart n) (records : List (Recording n)) :
    (start v records DepartPoint.expire).DepartSafe := by
  refine Or.inr fun hdel => ⟨(h.deleted hdel).1, ?_⟩
  intro t ht
  obtain ⟨r, -, rfl⟩ := List.mem_map.mp ht
  rfl

theorem DepartSafe.record (h : s.DepartSafe) {i : Nat} {q : Recording n} {p : RecordPoint}
    (hi : s.records[i]? = some (q, p)) : DepartSafe
      ⟨(q.step s.free s.view p).1, s.records.set i (q, (q.step s.free s.view p).2), s.point⟩ := by
  rcases h with hleaving | h
  · exact Or.inl hleaving
  have hchange := q.step_change s.free s.view p
  refine Or.inr fun hdel => ?_
  obtain ⟨hinner, hpassed⟩ := h fun hv => hdel (hchange.deleted_none hv)
  have hp : p.passed = false := hpassed (q, p) (List.mem_of_getElem? hi)
  constructor
  · have hsame := hchange.inner_eq (by rintro rfl; simp [RecordPoint.passed] at hp)
    dsimp only
    rw [hsame]
    exact hinner
  · intro t ht
    rcases mem_set ht with rfl | ht
    · by_contra hpass
      rcases Recording.passed_step (Bool.not_eq_false _ ▸ hpass) with hwas | hnone
      · rw [hp] at hwas
        simp at hwas
      · exact hdel hnone
    · exact hpassed t ht

theorem DepartSafe.main (h : s.DepartSafe) (hok : s.DepartOk .main) : DepartSafe
    ⟨(r.step s.free s.view s.point).1, s.records, (r.step s.free s.view s.point).2⟩ := by
  obtain ⟨v, records, point⟩ := s
  -- The points from the departure held to the member removed ask nothing.
  have hrest : point.leaving = false → v.deleted[n]? ≠ none →
      v.inner.map[n]? = none ∧ ∀ t ∈ records, t.2.passed = false := by
    intro hleaving
    exact h.resolve_left (by simp [hleaving])
  cases point with
  | expire =>
    refine Or.inr fun hdel => hrest rfl fun hv => hdel ?_
    unfold Departing.step
    dsimp only
    rw [DigestView.expireDeletedAt_deleted, hv]
    rfl
  | receipt =>
    cases hdel : v.deleted[n]? with
    | some e =>
      simp only [Departing.step, hdel]
      exact Or.inr (hrest rfl)
    | none =>
      simp only [Departing.step, hdel]
      exact Or.inl rfl
  | recovering | unmark | clear | close | projected => exact Or.inl rfl
  | members =>
    unfold Departing.step
    dsimp only
    split
    next hfree => exact Or.inr fun _ => ⟨DigestView.Barrier.erase_self _ _, hok rfl hfree⟩
    next => exact Or.inl rfl
  | done accepted => exact Or.inr (hrest rfl)

theorem DepartSafe.step (s : Threads n DepartPoint) (choice : Choice) (h : s.DepartSafe) (hok : s.DepartOk choice) :
    (s.step r.step choice).DepartSafe := by
  refine step_cases choice h ?_ ?_
  · rintro rfl
    exact h.main hok
  · intro i q p _ hi
    exact h.record hi

/-- The view holds the departure from its receipt on, while the digests' instants are within its
retention. -/
structure DepartHeld (r : Departing n) (retention : Nat) (s : Threads n DepartPoint) : Prop where
  same : s.view.retention = retention
  within : ∀ t ∈ s.records, t.1.now - r.now < retention
  held : s.point.accepted = true → s.view.deleted[n]? = some (r.op, r.now)

theorem DepartHeld.start {v : DigestView} {records : List (Recording n)}
    (h : ∀ q ∈ records, q.now - r.now < v.retention) :
    (start v records DepartPoint.expire).DepartHeld r v.retention := by
  refine ⟨rfl, ?_, fun hpoint => ?_⟩
  · intro t ht
    obtain ⟨q, hq, rfl⟩ := List.mem_map.mp ht
    exact h q hq
  · simp [Threads.start, DepartPoint.accepted, DepartPoint.leaving] at hpoint

theorem DepartHeld.record {retention i : Nat} (h : s.DepartHeld r retention) {q : Recording n} {p : RecordPoint}
    (hi : s.records[i]? = some (q, p)) : DepartHeld r retention
      ⟨(q.step s.free s.view p).1, s.records.set i (q, (q.step s.free s.view p).2), s.point⟩ := by
  have hchange := q.step_change s.free s.view p
  have hq := h.within (q, p) (List.mem_of_getElem? hi)
  refine ⟨hchange.retention.trans h.same, ?_, ?_⟩
  · intro t ht
    rcases mem_set ht with rfl | ht
    · exact hq
    · exact h.within t ht
  · intro hpoint
    exact hchange.deleted_stands (h.held hpoint) (h.same.symm ▸ hq)

theorem DepartHeld.main {retention : Nat} (h : s.DepartHeld r retention) : DepartHeld r retention
    ⟨(r.step s.free s.view s.point).1, s.records, (r.step s.free s.view s.point).2⟩ := by
  obtain ⟨hretention, hwithin, hheld⟩ := h
  obtain ⟨v, records, point⟩ := s
  cases point with
  | expire => exact ⟨hretention, hwithin, by simp [Departing.step, DepartPoint.accepted, DepartPoint.leaving]⟩
  | receipt =>
    cases hdel : v.deleted[n]? with
    | some e =>
      simp only [Departing.step, hdel]
      exact ⟨hretention, hwithin, by simp [DepartPoint.accepted]⟩
    | none =>
      simp only [Departing.step, hdel]
      refine ⟨hretention, hwithin, fun _ => ?_⟩
      dsimp only
      rw [getElem?_insert_eq, if_pos rfl]
  | recovering | unmark | clear | close | projected => exact ⟨hretention, hwithin, fun _ => hheld rfl⟩
  | members =>
    have hdel : v.deleted[n]? = some (r.op, r.now) := hheld rfl
    unfold Departing.step
    dsimp only
    split
    next => exact ⟨hretention, hwithin, fun _ => hdel⟩
    next => exact ⟨hretention, hwithin, fun _ => hdel⟩
  | done accepted => exact ⟨hretention, hwithin, hheld⟩

theorem DepartHeld.step {retention : Nat} (s : Threads n DepartPoint) (choice : Choice) (h : s.DepartHeld r retention) :
    (s.step r.step choice).DepartHeld r retention := by
  refine step_cases choice h ?_ ?_
  · rintro rfl
    exact h.main
  · intro i q p _ hi
    exact h.record hi

end Depart

section Stop

variable {r : Stopping n} {s : Threads n StopPoint} {incarnation : String}

/-- Outside a stop, a birth held stopped is no member and no digest of it is about to be installed. -/
def StopSafe (incarnation : String) (s : Threads n StopPoint) : Prop :=
  s.point.leaving = true ∨ (s.view.holdsStopped n incarnation = true →
    NoMember n incarnation s.view ∧ ∀ t ∈ s.records, t.2 = .install → t.1.digest.node.incarnation ≠ incarnation)

theorem StopSafe.start {v : DigestView} (h : v.Apart n) (records : List (Recording n)) :
    (start v records StopPoint.expire).StopSafe incarnation := by
  refine Or.inr fun hstopped => ⟨?_, ?_⟩
  · intro held hheld
    obtain ⟨m, hm, -⟩ := DigestView.holdsStopped_iff.mp hstopped
    have hmarked : v.stoppedMarks[n]? ≠ none := fun hnone => by
      rw [show v.stoppedMarks[n]? = some m from hm] at hnone
      simp at hnone
    exact absurd ((h.marked hmarked).symm.trans hheld) (by simp)
  · intro t ht
    obtain ⟨q, -, rfl⟩ := List.mem_map.mp ht
    intro hpoint
    simp at hpoint

theorem StopSafe.record (h : s.StopSafe incarnation) {i : Nat} {q : Recording n} {p : RecordPoint}
    (hi : s.records[i]? = some (q, p)) : StopSafe incarnation
      ⟨(q.step s.free s.view p).1, s.records.set i (q, (q.step s.free s.view p).2), s.point⟩ := by
  rcases h with hleaving | h
  · exact Or.inl hleaving
  have hchange := q.step_change s.free s.view p
  refine Or.inr fun hstopped => ?_
  obtain ⟨hmember, hinstall⟩ := h (hchange.holdsStopped hstopped)
  refine ⟨hchange.noMember hmember (hinstall (q, p) (List.mem_of_getElem? hi)), ?_⟩
  intro t ht hpoint
  rcases mem_set ht with rfl | ht
  · rintro rfl
    have hfree := Recording.install_step hpoint
    rw [show (q.step s.free s.view p).1.holdsStopped n q.digest.node.incarnation = true from hstopped] at hfree
    simp at hfree
  · exact hinstall t ht hpoint

/-- Nothing of the stops and the members changes but when they were heard. -/
theorem StopSafe.aside (h : s.StopSafe incarnation) (hpoint : s.point.leaving = false) {w : DigestView} {p : StopPoint}
    (hstopped : w.holdsStopped n incarnation = true → s.view.holdsStopped n incarnation = true)
    (hmember : NoMember n incarnation s.view → NoMember n incarnation w) :
    StopSafe incarnation ⟨w, s.records, p⟩ := by
  refine Or.inr fun hw => ?_
  obtain ⟨hnone, hinstall⟩ := h.resolve_left (by simp [hpoint]) (hstopped hw)
  exact ⟨hmember hnone, hinstall⟩

theorem not_install_of_free (h : s.free = true) : ∀ t ∈ s.records, t.2 ≠ .install := by
  intro t ht hpoint
  have hholds := List.all_eq_true.mp h t ht
  rw [hpoint] at hholds
  simp [RecordPoint.holds] at hholds

theorem noMember_restartSilence {v : DigestView} (h : NoMember n incarnation v) (now : Nat) :
    NoMember n incarnation { v with inner := v.inner.restartSilence now } := by
  intro held hheld
  dsimp only at hheld
  rw [HeldMembers.restartSilence_map, Std.ExtTreeMap.getElem?_map] at hheld
  obtain ⟨old, hold, rfl⟩ := Option.map_eq_some_iff.mp hheld
  exact h old hold

theorem StopSafe.main (h : s.StopSafe r.op.incarnation) : StopSafe r.op.incarnation
    ⟨(r.step s.free s.view s.point).1, s.records, (r.step s.free s.view s.point).2⟩ := by
  obtain ⟨v, records, point⟩ := s
  cases point with
  | expire | projectedSilence | departed | own | projected => exact h.aside rfl (fun hw => hw) fun hv => hv
  | awake =>
    unfold Stopping.step
    dsimp only
    split
    next => exact h.aside rfl (fun hw => hw) fun hv => hv
    next => exact h.aside rfl (fun hw => hw) fun hv => hv
  | silence =>
    unfold Stopping.step
    dsimp only
    split
    next => exact h.aside rfl (fun hw => hw) fun hv => noMember_restartSilence hv r.now
    next => exact h
  | member =>
    unfold Stopping.step
    dsimp only
    split
    next =>
      split
      next => exact h.aside rfl (fun hw => hw) fun hv => hv
      next => exact h.aside rfl (fun hw => hw) fun hv => hv
    next => exact h
  | overlay held =>
    unfold Stopping.step
    dsimp only
    split
    next => exact h.aside rfl (fun hw => hw) fun hv => hv
    next =>
      split
      next => exact h.aside rfl (fun hw => hw) fun hv => hv
      next => exact h.aside rfl (fun hw => hw) fun hv => hv
  | carry =>
    unfold Stopping.step
    dsimp only
    split
    next mark hm =>
      split
      next hsame =>
        refine h.aside rfl (fun _ => ?_) fun hv => hv
        simp only [Bool.and_eq_true, beq_iff_eq] at hsame
        exact DigestView.holdsStopped_iff.mpr ⟨mark, hm, hsame.1⟩
      next => exact h.aside rfl (fun hw => hw) fun hv => hv
    next => exact h.aside rfl (fun hw => hw) fun hv => hv
  | mark held => exact Or.inl rfl
  | unproject => exact Or.inl rfl
  | members =>
    unfold Stopping.step
    dsimp only
    split
    next hfree =>
      refine Or.inr fun _ => ⟨?_, fun t ht hpoint => absurd hpoint (not_install_of_free hfree t ht)⟩
      intro held hheld
      rw [show (v.inner.remove n).map[n]? = none from DigestView.Barrier.erase_self _ _] at hheld
      simp at hheld
    next => exact Or.inl rfl
  | done taken => exact h

theorem StopSafe.step (s : Threads n StopPoint) (choice : Choice) (h : s.StopSafe r.op.incarnation) :
    (s.step r.step choice).StopSafe r.op.incarnation := by
  refine step_cases choice h ?_ ?_
  · rintro rfl
    exact h.main
  · intro i q p _ hi
    exact h.record hi

/-- Once the stop marked its birth, no digest clears the mark. -/
def StopOk (s : Threads n StopPoint) : Choice → Prop
  | .main => True
  | .record i => s.point.taken = true → ∀ t ∈ s.records[i]?, t.2.unmarks = false

instance (s : Threads n StopPoint) (choice : Choice) : Decidable (s.StopOk choice) :=
  match choice with
  | .main => inferInstanceAs (Decidable True)
  | .record i => inferInstanceAs (Decidable (s.point.taken = true → ∀ t ∈ s.records[i]?, t.2.unmarks = false))

def StopMarked (incarnation : String) (s : Threads n StopPoint) : Prop :=
  s.point.taken = true → s.view.holdsStopped n incarnation = true

theorem StopMarked.main (h : s.StopMarked r.op.incarnation) : StopMarked r.op.incarnation
    ⟨(r.step s.free s.view s.point).1, s.records, (r.step s.free s.view s.point).2⟩ := by
  intro htaken
  obtain ⟨v, records, point⟩ := s
  rcases Stopping.taken_step htaken with hwas | ⟨held, hpoint⟩
  · have hv : v.holdsStopped n r.op.incarnation = true := h hwas
    unfold DigestView.holdsStopped at hv ⊢
    rw [← @Stopping.marks_step _ v _ r _ hwas] at hv
    exact hv
  · dsimp only at hpoint
    subst hpoint
    unfold DigestView.holdsStopped Stopping.step
    dsimp only
    rw [getElem?_insert_eq, if_pos rfl]
    simp

theorem StopMarked.step (s : Threads n StopPoint) (choice : Choice) (h : s.StopMarked r.op.incarnation)
    (hok : s.StopOk choice) : (s.step r.step choice).StopMarked r.op.incarnation := by
  refine step_cases choice h ?_ ?_
  · rintro rfl
    exact h.main
  · rintro i q p rfl hi htaken
    exact (q.step_change s.free s.view p).stop_stands (h htaken) (hok htaken (q, p) hi)

end Stop

/-- In every interleaving, hold by hold, from every view a run of calls reaches. Once the departure
returned, a view that holds the node deleted holds no member of it, where no digest past the deletion
check outlived the removal of the member; an accepted departure is held for its retention. Once the
stop returned, a view that holds its birth stopped holds no member of it; a stop taken is held while no
digest clears its mark. -/
theorem departed_stopped_absent (retention stalenessFloor now : Nat) (calls : List ViewCall) (n : String)
    (records : List (Recording n)) (choices : List Choice) :
    let v := ((World.fresh retention stalenessFloor now).run calls).view
    (∀ (r : Departing n) (accepted : Bool), (run r.step (start v records .expire) choices).point = .done accepted →
      let w := (run r.step (start v records .expire) choices).view
      (RunOk (step r.step) DepartOk (start v records .expire) choices →
        ∀ t, w.isDeletedAt n t = true → w.inner.map[n]? = none) ∧
      (accepted = true → (∀ q ∈ records, q.now - r.now < v.retention) →
        ∀ t, t - r.now < v.retention → w.isDeletedAt n t = true)) ∧
    (∀ (r : Stopping n) (taken : Bool), (run r.step (start v records .expire) choices).point = .done taken →
      let w := (run r.step (start v records .expire) choices).view
      (w.holdsStopped n r.op.incarnation = true → NoMember n r.op.incarnation w) ∧
      (taken = true → RunOk (step r.step) StopOk (start v records .expire) choices →
        w.holdsStopped n r.op.incarnation = true)) := by
  intro v
  have hapart : v.Apart n := World.apart_run retention stalenessFloor now calls n
  refine ⟨fun r accepted hdone => ⟨fun hok t hdel => ?_, fun haccepted hwithin t ht => ?_⟩,
    fun r taken hdone => ⟨fun hstopped => ?_, fun htaken hok => ?_⟩⟩
  · have hsafe : (run r.step (start v records .expire) choices).DepartSafe :=
      hok.invariant DepartSafe.step (DepartSafe.start hapart records)
    obtain ⟨e, he, -⟩ := DigestView.isDeletedAt_iff.mp hdel
    refine (hsafe.resolve_left (by simp [hdone, DepartPoint.leaving]) ?_).1
    simp [he]
  · have hheld : (run r.step (start v records .expire) choices).DepartHeld r v.retention :=
      List.foldlRecOn choices _ (DepartHeld.start hwithin) fun s hs choice _ => DepartHeld.step s choice hs
    refine DigestView.isDeletedAt_iff.mpr ⟨(r.op, r.now), hheld.held ?_, ?_⟩
    · rw [hdone, haccepted]
      rfl
    · rw [hheld.same]
      exact ht
  · have hsafe : (run r.step (start v records .expire) choices).StopSafe r.op.incarnation :=
      List.foldlRecOn choices _ (StopSafe.start hapart records) fun s hs choice _ => StopSafe.step s choice hs
    exact (hsafe.resolve_left (by simp [hdone, StopPoint.leaving]) hstopped).1
  · have hmarked : (run r.step (start v records .expire) choices).StopMarked r.op.incarnation :=
      hok.invariant StopMarked.step fun h => by simp [start, StopPoint.taken, StopPoint.leaving] at h
    refine hmarked ?_
    rw [hdone, htaken]
    rfl

/-- A thread that records a digest of the birth `b1`. -/
def recording (via : Via) (status : NodeStatus) (digestSeq : Nat) : Recording "n1" :=
  ⟨via, World.digestOf "b1" none status digestSeq, 0, rfl⟩

def departing : Departing "n1" := ⟨World.opOf "node.delete" "build1" "b1", 0, rfl⟩

def stopping : Stopping "n1" := ⟨World.opOf "node.stop" "build1" "b1", none, 0, rfl⟩

/-- A digest is checked right after its node is held deleted; another has the hold of the members when
its birth's stop comes to read them. -/
theorem departed_stopped_absent_raced :
    let v := ((World.fresh 10 3 0).run [.record .heartbeat (World.digestOf "b1" none .ready 1)]).view
    let records := [recording .topology .ready 2]
    let deleted := [.record 0, .main, .main, .record 0] ++ List.replicate 6 .main
    let stopped := List.replicate 7 (.record 0) ++ List.replicate 5 .main ++ .record 0 :: List.replicate 5 .main
    (run departing.step (start v records .expire) deleted).view.inner.map["n1"]? = none ∧
      NoMember "n1" "b1" (run stopping.step (start v records .expire) stopped).view := by
  intro v records deleted stopped
  obtain ⟨hdepart, -⟩ := departed_stopped_absent 10 3 0 [.record .heartbeat (World.digestOf "b1" none .ready 1)] "n1"
    records deleted
  obtain ⟨-, hstop⟩ := departed_stopped_absent 10 3 0 [.record .heartbeat (World.digestOf "b1" none .ready 1)] "n1"
    records stopped
  obtain ⟨habsent, hheld⟩ := hdepart departing true (by decide +kernel)
  obtain ⟨hmember, hmarked⟩ := hstop stopping true (by decide +kernel)
  refine ⟨habsent (by decide +kernel) 0 (hheld rfl (by decide +kernel) 0 (by decide +kernel)), ?_⟩
  exact hmember (hmarked rfl (by decide +kernel))

/-- A digest passes the deletion check, its node departs, and the digest is installed. -/
def raced : Threads "n1" DepartPoint :=
  run departing.step (start (.withFloor 10 3) [recording .heartbeat .ready 1] .expire)
    (List.replicate 2 (.record 0) ++ List.replicate 8 .main ++ List.replicate 6 (.record 0))

/-- A node of the view's own mesh is stopped, and is heard of its next cycle. -/
def restarted : Threads "n1" StopPoint :=
  run stopping.step
    (start ((World.fresh 10 3 0).run [.configure false "mesh2" (some "self") none "self"]).view
      [recording .heartbeat .pending 1] .expire)
    (List.replicate 10 .main ++ List.replicate 9 (.record 0))

theorem departed_stopped_held :
    (raced.Recorded ∧ raced.point = .done true ∧ raced.view.isDeletedAt "n1" 0 = true ∧
      (raced.view.inner.map["n1"]?).map (fun held => held.digest.node.incarnation) = some "b1") ∧
    (restarted.Recorded ∧ restarted.point = .done true ∧
      (restarted.view.inner.map["n1"]?).map (fun held => held.digest.node.incarnation) = some "b1") := by
  unfold Recorded
  refine ⟨⟨?_, ?_, ?_, ?_⟩, ?_, ?_, ?_⟩
  · decide +kernel
  · decide +kernel
  · decide +kernel
  · decide +kernel
  · decide +kernel
  · decide +kernel
  · decide +kernel

end Threads

end DistributedMesh
