import Mathlib.Logic.Relation
import DistributedMesh.ViewState

namespace DistributedMesh

open KeyedMaps
open Relation (ReflTransGen)

/-- Where a thread that records a digest stands: each point is the next hold of a mutex it takes. The
holds of the stop check are taken `again` when the birth was found stopped under the hold of the
members. -/
inductive RecordPoint where
  | expire
  | departed
  | afterDeletion
  | returned
  | recovering
  | nextCycle (again : Bool)
  | mark (again : Bool)
  | unmark (again : Bool)
  | clear (again : Bool)
  | members
  | recheck
  | install
  | done
deriving DecidableEq

namespace RecordPoint

/-- The thread has the hold of the members. -/
def holds : RecordPoint → Bool
  | recheck | install => true
  | _ => false

/-- The digest passed the check against the departures and may still be installed. -/
def passed : RecordPoint → Bool
  | recovering | members | recheck | install => true
  | nextCycle again | mark again | unmark again | clear again => !again
  | _ => false

/-- The thread ends the stop: it clears the node's mark. -/
def unmarks : RecordPoint → Bool
  | unmark _ => true
  | _ => false

/-- Past the stop check a digest goes on to the members, or the second time is refused. -/
def past (again : Bool) : RecordPoint := if again then done else members

end RecordPoint

/-- A thread running `record`, `record_forwarded` or `record_topology` for a digest of node `n`. -/
structure Recording (n : String) where
  via : Via
  digest : MeshDigest
  now : Nat
  names : digest.node.nodeId = n

/-- One hold of a mutex by a thread that records a digest; `free` when no thread has the hold of the
members. What no thread of the system writes is read beside it. -/
def Recording.step {n : String} (r : Recording n) (free : Bool) (v : DigestView) :
    RecordPoint → DigestView × RecordPoint
  | .expire => (v.expireDeletedAt r.now, .departed)
  | .departed =>
    if v.deleted.contains n then (v, if r.via = .heartbeat then .afterDeletion else .done) else (v, .recovering)
  | .afterDeletion =>
    if (v.deleted[n]?).any fun e =>
        e.1.incarnation == r.digest.node.incarnation && decide (e.1.eventAtRafkaMs < r.digest.emittedAtRafkaMs) then
      (v, .returned)
    else (v, .done)
  | .returned => ({ v with returned := v.returned.insertIfNew (n, r.digest.node.incarnation) r.digest }, .done)
  | .recovering => (v, if v.isRecovering n r.digest.node.incarnation then .done else .nextCycle false)
  | .nextCycle again => (v, if v.nextCycle r.digest then .unmark again else .mark again)
  | .mark again =>
    match v.stoppedMarks[n]? with
    | none => (v, .past again)
    | some mark =>
      if mark.incarnation ≠ r.digest.node.incarnation then (v, .unmark again)
      else ({ v with stoppedMarks := v.stoppedMarks.insert n (mark.keep r.digest r.via r.now) }, .done)
  | .unmark again => (v.unmark n, .clear again)
  | .clear again => (v.endOverlays fun o => o.isStop && o.nodeId == n, .past again)
  | .members => (v, if free then .recheck else .members)
  -- A stop taken since the check refuses the digest here, under the hold.
  | .recheck => (v, if v.isStopped r.digest then .nextCycle true else .install)
  | .install => ((v.install r.via r.digest r.now).1, .done)
  | .done => (v, .done)

/-- Where a thread that runs `depart_at` stands. -/
inductive DepartPoint where
  | expire
  | receipt
  | recovering
  | unmark
  | clear
  | close
  | projected
  | members
  | done (accepted : Bool)
deriving DecidableEq

/-- The departure is held, and the member not removed yet. -/
def DepartPoint.leaving : DepartPoint → Bool
  | recovering | unmark | clear | close | projected | members => true
  | _ => false

/-- The departure was accepted. -/
def DepartPoint.accepted : DepartPoint → Bool
  | done accepted => accepted
  | point => point.leaving

/-- A thread running `depart_at` for node `n`. -/
structure Departing (n : String) where
  op : LifecycleOp
  now : Nat
  names : op.nodeId = n

def Departing.step {n : String} (r : Departing n) (free : Bool) (v : DigestView) :
    DepartPoint → DigestView × DepartPoint
  | .expire => (v.expireDeletedAt r.now, .receipt)
  | .receipt =>
    match v.deleted[n]? with
    | some _ => (v, .done false)
    | none => ({ v with deleted := v.deleted.insert n (r.op, r.now) }, .recovering)
  | .recovering => ({ v with recovering := v.recovering.erase n }, .unmark)
  | .unmark => (v.unmark n, .clear)
  | .clear => (v.endOverlays fun o => o.isStop && o.nodeId == n, .close)
  | .close => ({ v with inFlight := v.inFlight.close r.op.key }, .projected)
  | .projected => ({ v with projected := v.projected.erase n }, .members)
  | .members => if free then ({ v with inner := v.inner.remove n }, .done true) else (v, .members)
  | .done accepted => (v, .done accepted)

/-- Where a thread that runs `stopped` stands; `held` is the digest it read of the node. -/
inductive StopPoint where
  | expire
  | departed
  | own
  | awake
  | silence
  | projectedSilence
  | member
  | projected
  | overlay (held : Option MeshDigest)
  | carry
  | mark (held : Option MeshDigest)
  | unproject
  | members
  | done (taken : Bool)
deriving DecidableEq

/-- The birth is marked stopped, and the member not removed yet. -/
def StopPoint.leaving : StopPoint → Bool
  | unproject | members => true
  | _ => false

/-- The stop was taken: the birth is marked. -/
def StopPoint.taken : StopPoint → Bool
  | done taken => taken
  | point => point.leaving

/-- A thread running `stopped` for node `n`. -/
structure Stopping (n : String) where
  op : LifecycleOp
  carried : Option (String × Nat)
  now : Nat
  names : op.nodeId = n

/-- A stop goes on unless another birth than the one it names is held. -/
def Stopping.heard {n : String} (r : Stopping n) (held : Option MeshDigest) : StopPoint :=
  if held.any fun d => d.node.incarnation != r.op.incarnation then .done false else .overlay held

def Stopping.step {n : String} (r : Stopping n) (free : Bool) (v : DigestView) :
    StopPoint → DigestView × StopPoint
  | .expire => (v.expireDeletedAt r.now, .departed)
  | .departed => (v, if v.deleted.contains n then .done false else .own)
  | .own => (v, if v.own = some n then .done false else .awake)
  | .awake =>
    if v.awake.any fun last => decide (r.now - last > v.stalenessFloor) then
      ({ v with awake := some r.now }, .silence)
    else (v, .member)
  | .silence =>
    if free then ({ v with inner := v.inner.restartSilence r.now }, .projectedSilence) else (v, .silence)
  | .projectedSilence => ({ v with projected := v.projected.map fun _ e => (e.1, r.now) }, .member)
  | .member =>
    if free then
      match v.inner.map[n]? with
      | some held => (v, r.heard (some (v.recordedPrimaries held.digest)))
      | none => (v, .projected)
    else (v, .member)
  | .projected => (v, r.heard ((v.projected[n]?).map Prod.fst))
  | .overlay held =>
    let ended := v.endedOverlays.contains r.op.identity
    if DigestView.admitOverlay r.op v.inFlight.map[r.op.key]? ended then
      ({ v with inFlight := v.inFlight.put r.op }, .mark held)
    else if ended then (v, .done false)
    else (v, if r.carried.isSome then .carry else .done false)
  | .carry =>
    match v.stoppedMarks[n]? with
    | some mark =>
      if mark.incarnation == r.op.incarnation && mark.carried.isNone then
        ({ v with stoppedMarks := v.stoppedMarks.insert n { mark with carried := r.carried } }, .done false)
      else (v, .done false)
    | none => (v, .done false)
  | .mark held =>
    let mark : StopMark := ⟨r.op.incarnation, (held.map MeshDigest.digestSeq).getD 0, held, none, r.carried⟩
    ({ v with stoppedMarks := v.stoppedMarks.insert n mark }, .unproject)
  | .unproject => ({ v with projected := v.projected.erase n }, .members)
  | .members => if free then ({ v with inner := v.inner.remove n }, .done true) else (v, .members)
  | .done taken => (v, .done taken)

section Alone

variable {P : Type} {n : String}

/-- A thread takes its next hold with nobody else at the members. -/
def Alone (step : DigestView → P → DigestView × P) (a b : DigestView × P) : Prop := step a.1 a.2 = b

theorem Alone.next {step : DigestView → P → DigestView × P} {v : DigestView} {p : P} {c : DigestView × P}
    (h : ReflTransGen (Alone step) (step v p) c) : ReflTransGen (Alone step) (v, p) c :=
  .head rfl h

/-- The holds of the stop check, one after another, are `stoppedRefuses`. -/
theorem Recording.alone_stopCheck (r : Recording n) (v : DigestView) (again : Bool) :
    ReflTransGen (Alone (r.step true)) (v, .nextCycle again) ((v.stoppedRefuses r.digest r.via r.now).1,
      if (v.stoppedRefuses r.digest r.via r.now).2 then .done else .past again) := by
  have hends : ReflTransGen (Alone (r.step true)) (v, .unmark again) (v.endStop n, .past again) :=
    Alone.next (Alone.next .refl)
  obtain ⟨via, d, now, rfl⟩ := r
  unfold DigestView.stoppedRefuses
  refine Alone.next ?_
  by_cases hnext : v.nextCycle d = true
  · simp only [step, hnext, if_true, Bool.false_eq_true, if_false]
    exact hends
  · simp only [step, hnext, Bool.false_eq_true, if_false]
    refine Alone.next ?_
    cases hmark : v.stoppedMarks[d.node.nodeId]? with
    | none =>
      simp only [step, hmark, Bool.false_eq_true, if_false]
      exact .refl
    | some mark =>
      by_cases hbirth : mark.incarnation ≠ d.node.incarnation
      · simp only [step, hmark, if_pos hbirth, Bool.false_eq_true, if_false]
        exact hends
      · simp only [step, hmark, if_neg hbirth, if_true]
        exact .refl

/-- Alone, a thread that records a digest does what `recordVia` does. -/
theorem Recording.alone (r : Recording n) (v : DigestView) :
    ReflTransGen (Alone (r.step true)) (v, .expire) ((v.recordVia r.via r.digest r.now).1, .done) := by
  have hcheck := r.alone_stopCheck (v.expireDeletedAt r.now) false
  have hagain := fun u : DigestView => r.alone_stopCheck u true
  obtain ⟨via, d, now, rfl⟩ := r
  refine Alone.next ?_
  unfold DigestView.recordVia
  simp only [step] at hcheck hagain ⊢
  generalize v.expireDeletedAt now = u at hcheck ⊢
  refine Alone.next ?_
  by_cases hdel : u.deleted.contains d.node.nodeId = true
  · by_cases hvia : via = .heartbeat
    · simp only [step, hdel, hvia, if_true]
      refine Alone.next ?_
      unfold DigestView.noteReturned
      simp only [step]
      split
      next => exact Alone.next .refl
      next => exact .refl
    · simp only [step, hdel, hvia, if_true, if_false]
      exact .refl
  · simp only [step, hdel, Bool.false_eq_true, if_false]
    refine Alone.next ?_
    by_cases hrec : u.isRecovering d.node.nodeId d.node.incarnation = true
    · simp only [step, hrec, if_true]
      exact .refl
    · simp only [step, hrec, Bool.false_eq_true, if_false]
      refine hcheck.trans ?_
      generalize u.stoppedRefuses d via now = out
      obtain ⟨w, refused⟩ := out
      cases refused with
      | true => exact .refl
      | false =>
        refine Alone.next (Alone.next ?_)
        by_cases hstopped : w.isStopped d = true
        · -- Found stopped under the hold, the digest is refused as it would have been before.
          simp only [step, hstopped, if_true]
          refine (hagain w).trans ?_
          simp only [RecordPoint.past, if_true, ite_self]
          exact .refl
        · simp only [step, hstopped, Bool.false_eq_true, if_false]
          exact Alone.next .refl

/-- Alone, a thread that departs a node does what `departAt` does. -/
theorem Departing.alone (r : Departing n) (v : DigestView) :
    ReflTransGen (Alone (r.step true)) (v, .expire) ((v.departAt r.op r.now).1, .done (v.departAt r.op r.now).2) := by
  obtain ⟨op, now, rfl⟩ := r
  refine Alone.next ?_
  unfold DigestView.departAt
  simp only [step]
  generalize v.expireDeletedAt now = u
  refine Alone.next ?_
  cases hdel : u.deleted[op.nodeId]? with
  | some e =>
    simp only [step, hdel]
    exact .refl
  | none =>
    simp only [step, hdel]
    exact Alone.next (Alone.next (Alone.next (Alone.next (Alone.next (Alone.next .refl)))))

theorem Stopping.alone_woken (r : Stopping n) (v : DigestView) :
    ReflTransGen (Alone (r.step true)) (v, .awake) (v.woken r.now, .member) := by
  unfold DigestView.woken
  refine Alone.next ?_
  cases hawake : v.awake with
  | none =>
    simp only [step, hawake, Option.any_none, Bool.false_eq_true, if_false]
    exact .refl
  | some last =>
    by_cases hgap : r.now - last > v.stalenessFloor
    · simp only [step, hawake, Option.any_some, hgap, decide_true, if_true]
      exact Alone.next (Alone.next .refl)
    · simp only [step, hawake, Option.any_some, hgap, decide_false, Bool.false_eq_true, if_false]
      exact .refl

/-- The holds that open the overlay, mark the birth and drop it are `takeStop`. -/
theorem Stopping.alone_takeStop (r : Stopping n) (v : DigestView) (held : Option MeshDigest) :
    ReflTransGen (Alone (r.step true)) (v, .overlay held)
      ((v.takeStop r.op r.carried held).1, .done (v.takeStop r.op r.carried held).2) := by
  obtain ⟨op, carried, now, rfl⟩ := r
  refine Alone.next ?_
  unfold DigestView.takeStop
  simp only [step]
  split
  next => exact Alone.next (Alone.next (Alone.next .refl))
  next =>
    split
    next => exact .refl
    next =>
      cases carried with
      | none =>
        simp only [Option.isSome_none, Bool.false_and, Bool.false_eq_true, if_false]
        cases v.stoppedMarks[op.nodeId]? with
        | none => exact .refl
        | some mark => exact .refl
      | some publication =>
        simp only [Option.isSome_some, Bool.true_and, if_true]
        refine Alone.next ?_
        cases hmark : v.stoppedMarks[op.nodeId]? with
        | none =>
          simp only [step, hmark]
          exact .refl
        | some mark =>
          simp only [step, hmark]
          split
          next => exact .refl
          next => exact .refl

/-- Alone, a thread that stops a birth does what `stoppedCarried` does. -/
theorem Stopping.alone (r : Stopping n) (v : DigestView) :
    ReflTransGen (Alone (r.step true)) (v, .expire)
      ((v.stoppedCarried r.op r.carried r.now).1, .done (v.stoppedCarried r.op r.carried r.now).2) := by
  have hwoken := r.alone_woken (v.expireDeletedAt r.now)
  have htake := r.alone_takeStop ((v.expireDeletedAt r.now).woken r.now)
  obtain ⟨op, carried, now, rfl⟩ := r
  refine Alone.next ?_
  unfold DigestView.stoppedCarried
  simp only [step] at hwoken htake ⊢
  generalize v.expireDeletedAt now = u at hwoken htake ⊢
  refine Alone.next ?_
  by_cases hdel : u.deleted.contains op.nodeId = true
  · simp only [step, hdel, if_true]
    exact .refl
  simp only [step, hdel, Bool.false_eq_true, if_false]
  refine Alone.next ?_
  by_cases hown : u.own = some op.nodeId
  · simp only [step, hown, if_true]
    exact .refl
  simp only [step, hown, if_false]
  refine hwoken.trans ?_
  generalize u.woken now = w at htake ⊢
  -- The digest read, from the members or else from the projection, is the one held.
  have hread : ReflTransGen (Alone ((Stopping.mk op carried now rfl).step true)) (w, .member)
      (w, (Stopping.mk op carried now rfl).heard (w.heldDigest op.nodeId)) := by
    refine Alone.next ?_
    unfold DigestView.heldDigest
    cases hheld : w.inner.map[op.nodeId]? with
    | some held =>
      simp only [step, hheld, if_true, Option.map_some, Option.some_or]
      exact .refl
    | none =>
      simp only [step, hheld, if_true, Option.map_none, Option.none_or]
      exact Alone.next .refl
  refine hread.trans ?_
  unfold heard
  split
  next => exact .refl
  next => exact htake _

end Alone

end DistributedMesh
