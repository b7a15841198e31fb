import DistributedMesh.ViewMarks
import Mathlib.Data.List.Induction

namespace DistributedMesh

open KeyedMaps

namespace DigestView

/-- The birth the view holds of a node. -/
def heldNode (v : DigestView) (id : String) : Option MeshNode := (v.inner.map[id]?).map fun held => held.digest.node

section Records

variable {v : DigestView} {via : Via} {d : MeshDigest} {now : Nat}

theorem heldNode_hold {d' : MeshDigest} {heardAt : Nat} {heard : Heard} (hnode : d'.node = d.node) :
    (v.hold d' heardAt heard).heldNode d.node.nodeId = some d.node := by
  unfold heldNode hold
  dsimp only
  rw [hnode, HeldMembers.insert_map, getElem?_insert_eq, if_pos rfl, Option.map_some, hnode]

/-- A digest of another birth than the one held, which did not supersede it, is held. -/
theorem install_holds (h : ∀ node, v.heldNode d.node.nodeId = some node →
    node.incarnation ≠ d.node.incarnation ∧ node.supersedes ≠ some d.node.incarnation) :
    ∃ d' heardAt heard, d'.node = d.node ∧ (v.install via d now).1 = v.hold d' heardAt heard := by
  have hheartbeat : (v.inner.map[d.node.nodeId]?).any (fun held => refusesHeartbeat held.digest d) = false := by
    rw [Option.any_eq_false]
    intro held hheld
    obtain ⟨hother, hsupersedes⟩ := h held.digest.node (by rw [heldNode, hheld]; rfl)
    simp [refusesHeartbeat, admitDigest, runtimeChanged, hother, hsupersedes]
  have hcopy : ∀ held, v.inner.map[d.node.nodeId]? = some held →
      refusesCopy (v.ownMeshMember d) held.digest d = false := by
    intro held hheld
    obtain ⟨hother, hsupersedes⟩ := h held.digest.node (by rw [heldNode, hheld]; rfl)
    simp [refusesCopy, runtimeChanged, hother, hsupersedes]
  have hforwarded : (v.installForwarded d now).1 = v.hold (v.keepReportedStatus d) now .forwarded := by
    have hnone : (v.inner.map[d.node.nodeId]?).any (fun held => refusesCopy (v.ownMeshMember d) held.digest d) =
        false := by
      rw [Option.any_eq_false]
      exact hcopy
    unfold installForwarded
    rw [hnone]
    rfl
  cases via with
  | heartbeat =>
    refine ⟨_, now, .direct, v.keepReportedStatus_node d, ?_⟩
    simp only [install, installHeartbeat, hheartbeat, Bool.false_eq_true, if_false]
  | forwarded => exact ⟨_, now, .forwarded, v.keepReportedStatus_node d, hforwarded⟩
  | join => exact ⟨_, now, .forwarded, v.keepReportedStatus_node d, hforwarded⟩
  | topology =>
    simp only [install, installTopology]
    split
    next => exact ⟨d, now, .topology, rfl, rfl⟩
    next held hheld =>
      rw [hcopy held hheld]
      exact ⟨d, held.heardAt, held.heard, rfl, rfl⟩

/-- A digest of a birth the held one superseded is refused. -/
theorem install_superseded {node : MeshNode} (h : v.heldNode d.node.nodeId = some node)
    (hother : node.incarnation ≠ d.node.incarnation) (hsupersedes : node.supersedes = some d.node.incarnation) :
    (v.install via d now).1 = v := by
  obtain ⟨held, hheld, rfl⟩ := Option.map_eq_some_iff.mp h
  have hheartbeat : refusesHeartbeat held.digest d = true := by
    simp [refusesHeartbeat, hother, hsupersedes]
  have hcopy : refusesCopy (v.ownMeshMember d) held.digest d = true := by
    simp [refusesCopy, hother, hsupersedes]
  cases via with
  | heartbeat => simp [install, installHeartbeat, hheld, hheartbeat]
  | forwarded => simp [install, installForwarded, hheld, hcopy]
  | join => simp [install, installForwarded, hheld, hcopy]
  | topology => simp [install, installTopology, hheld, hcopy]

theorem expireDeletedAt_contains {id : String} (hdel : v.deleted[id]? = none) :
    (v.expireDeletedAt now).deleted.contains id = false := by
  have hnone : (v.expireDeletedAt now).deleted[id]? = none := by
    rw [expireDeletedAt_deleted, hdel]
    rfl
  rw [← Bool.not_eq_true, Std.ExtTreeMap.contains_iff_mem]
  exact not_mem_of_lookup hnone

/-- Past the departures and the recoveries, what the stops say of a digest decides. -/
theorem recordVia_eq {u : DigestView} {refused : Bool} (hdel : v.deleted[d.node.nodeId]? = none)
    (hrec : v.recovering[d.node.nodeId]? = none)
    (hstop : (v.expireDeletedAt now).stoppedRefuses d via now = (u, refused)) :
    v.recordVia via d now =
      if refused then (u, false)
      else if u.isStopped d then ((u.stoppedRefuses d via now).1, false)
      else u.install via d now := by
  have hdeleted : ¬ (v.expireDeletedAt now).deleted.contains d.node.nodeId = true := by
    rw [expireDeletedAt_contains hdel]
    simp
  have hrecovering : ¬ (v.expireDeletedAt now).isRecovering d.node.nodeId d.node.incarnation = true := by
    have hsame : (v.expireDeletedAt now).recovering[d.node.nodeId]? = none := hrec
    unfold isRecovering
    rw [hsame]
    simp
  refine (if_neg hdeleted).trans ((if_neg hrecovering).trans ?_)
  rw [hstop]
  cases refused with
  | true => rfl
  | false => rfl

theorem nextCycle_ready (hready : d.status = .ready) : v.nextCycle d = false := by
  unfold nextCycle
  rw [hready]
  cases v.stoppedMarks[d.node.nodeId]? <;> simp

theorem recordVia_unmarked (hdel : v.deleted[d.node.nodeId]? = none) (hrec : v.recovering[d.node.nodeId]? = none)
    (hmark : v.stoppedMarks[d.node.nodeId]? = none) :
    v.recordVia via d now = (v.expireDeletedAt now).install via d now := by
  have hsame : (v.expireDeletedAt now).stoppedMarks[d.node.nodeId]? = none := hmark
  have hnext : (v.expireDeletedAt now).nextCycle d = false := by
    unfold nextCycle
    rw [hsame]
    rfl
  have hrefuses : (v.expireDeletedAt now).stoppedRefuses d via now = (v.expireDeletedAt now, false) := by
    unfold stoppedRefuses
    rw [hnext, hsame]
    rfl
  have hstopped : (v.expireDeletedAt now).isStopped d = false := by
    unfold isStopped holdsStopped
    rw [hsame]
    rfl
  rw [recordVia_eq hdel hrec hrefuses]
  simp only [hstopped, Bool.false_eq_true, if_false]

/-- A Ready digest of the stopped birth is refused, and kept by the mark when it is the latest. -/
theorem recordVia_stopped {mark : StopMark} (hdel : v.deleted[d.node.nodeId]? = none)
    (hrec : v.recovering[d.node.nodeId]? = none) (hmark : v.stoppedMarks[d.node.nodeId]? = some mark)
    (hbirth : mark.incarnation = d.node.incarnation) (hready : d.status = .ready) :
    (v.recordVia via d now).1 = { v.expireDeletedAt now with
      stoppedMarks := v.stoppedMarks.insert d.node.nodeId (mark.keep d via now) } := by
  have hsame : (v.expireDeletedAt now).stoppedMarks[d.node.nodeId]? = some mark := hmark
  have hrefuses : (v.expireDeletedAt now).stoppedRefuses d via now = ({ v.expireDeletedAt now with
      stoppedMarks := v.stoppedMarks.insert d.node.nodeId (mark.keep d via now) }, true) := by
    unfold stoppedRefuses
    rw [nextCycle_ready hready, hsame]
    simp only [Bool.false_eq_true, if_false, hbirth, ne_eq, not_true_eq_false]
    rfl
  rw [recordVia_eq hdel hrec hrefuses]
  rfl

/-- A Ready digest of another birth than the stopped one ends the stop. -/
theorem recordVia_ends {mark : StopMark} (hdel : v.deleted[d.node.nodeId]? = none)
    (hrec : v.recovering[d.node.nodeId]? = none) (hmark : v.stoppedMarks[d.node.nodeId]? = some mark)
    (hbirth : mark.incarnation ≠ d.node.incarnation) (hready : d.status = .ready) :
    v.recordVia via d now = ((v.expireDeletedAt now).endStop d.node.nodeId).install via d now := by
  have hsame : (v.expireDeletedAt now).stoppedMarks[d.node.nodeId]? = some mark := hmark
  have hrefuses : (v.expireDeletedAt now).stoppedRefuses d via now =
      ((v.expireDeletedAt now).endStop d.node.nodeId, false) := by
    unfold stoppedRefuses
    rw [nextCycle_ready hready, hsame]
    simp only [Bool.false_eq_true, if_false, ne_eq, hbirth, not_false_eq_true, if_true]
  have hstopped : ((v.expireDeletedAt now).endStop d.node.nodeId).isStopped d = false := by
    unfold isStopped holdsStopped
    rw [endStop_marks, if_pos rfl]
    rfl
  rw [recordVia_eq hdel hrec hrefuses]
  simp only [hstopped, Bool.false_eq_true, if_false]

end Records

section Stops

variable {v : DigestView} {op : LifecycleOp} {carried : Option (String × Nat)} {now : Nat}

theorem heldNode_woken (v : DigestView) (now : Nat) (id : String) : (v.woken now).heldNode id = v.heldNode id := by
  rcases v.woken_cases now with hw | hw
  · rw [hw]
  · rw [hw]
    unfold heldNode restartSilence
    rw [HeldMembers.restartSilence_map, Std.ExtTreeMap.getElem?_map, Option.map_map]
    rfl

theorem heldDigest_node {id : String} (h : v.projected[id]? = none) :
    (v.heldDigest id).map MeshDigest.node = v.heldNode id := by
  unfold heldDigest heldNode
  rw [h, Option.map_none, Option.or_none, Option.map_map]
  rfl

/-- A stop of another birth than the one held is dropped, any other is taken or known already. -/
theorem stoppedCarried_eq (hdel : v.deleted[op.nodeId]? = none) (hown : v.own ≠ some op.nodeId) :
    v.stoppedCarried op carried now =
      if (((v.expireDeletedAt now).woken now).heldDigest op.nodeId).any fun d => d.node.incarnation != op.incarnation then
        ((v.expireDeletedAt now).woken now, false)
      else
        ((v.expireDeletedAt now).woken now).takeStop op carried
          (((v.expireDeletedAt now).woken now).heldDigest op.nodeId) := by
  have hnone : (v.expireDeletedAt now).deleted.contains op.nodeId = false := expireDeletedAt_contains hdel
  have hholder : (v.expireDeletedAt now).own ≠ some op.nodeId := hown
  unfold stoppedCarried
  simp only [hnone, hholder, Bool.false_eq_true, if_false]

theorem takeStop_opens {held : Option MeshDigest} (hended : op.identity ∉ v.endedOverlays)
    (hopen : ∀ o ∈ v.inFlight, o.identity ≠ op.identity) :
    ∃ mark, mark.incarnation = op.incarnation ∧ (v.takeStop op carried held).1 = v.stop op mark := by
  have hcontains : v.endedOverlays.contains op.identity = false := by
    rw [← Bool.not_eq_true, Std.ExtTreeSet.contains_iff_mem]
    exact hended
  have hheld : (v.inFlight.map[op.key]?).any (fun h => h.identity == op.identity) = false := by
    rw [Option.any_eq_false]
    intro o ho
    have hmem : o ∈ v.inFlight := by
      rw [OpenOverlays.mem_def, v.inFlight.keyed op.key o ho]
      exact ho
    simpa using hopen o hmem
  refine ⟨⟨op.incarnation, (held.map MeshDigest.digestSeq).getD 0, held, none, carried⟩, rfl, ?_⟩
  unfold takeStop admitOverlay
  rw [hcontains, hheld]
  rfl

/-- A stop that ended, or is open, changes nothing. -/
theorem takeStop_closed {held : Option MeshDigest} (h : op.identity ∈ v.endedOverlays ∨ op ∈ v.inFlight) :
    (v.takeStop op none held).1 = v := by
  have hclosed : admitOverlay op v.inFlight.map[op.key]? (v.endedOverlays.contains op.identity) = false := by
    rcases h with hended | hopen
    · rw [← Std.ExtTreeSet.contains_iff_mem] at hended
      rw [hended]
      rfl
    · rw [OpenOverlays.mem_def] at hopen
      rw [hopen]
      simp [admitOverlay]
  unfold takeStop
  dsimp only
  rw [hclosed]
  simp only [Bool.false_eq_true, if_false]
  split
  next => rfl
  next =>
    split
    next => rfl
    next => rfl

end Stops

end DigestView

/-- Two births of a node, the later of which superseded the older, and the stop of the later one. -/
structure Succession where
  nodeId : String
  older : String
  later : String
  stop : LifecycleOp
  births : older ≠ later
  node : stop.nodeId = nodeId
  birth : stop.incarnation = later
  stops : stop.isStop = true

namespace Succession

/-- A Ready digest of the older birth. -/
structure OfOlder (s : Succession) (d : MeshDigest) : Prop where
  node : d.node.nodeId = s.nodeId
  birth : d.node.incarnation = s.older
  supersedes : d.node.supersedes ≠ some s.later
  ready : d.status = .ready

/-- A Ready digest of the later birth. -/
structure OfLater (s : Succession) (d : MeshDigest) : Prop where
  node : d.node.nodeId = s.nodeId
  birth : d.node.incarnation = s.later
  supersedes : d.node.supersedes = some s.older
  ready : d.status = .ready

/-- One message as a view takes it, at a local instant. -/
inductive Delivery (s : Succession) where
  | older (now : Nat) (via : Via) (d : MeshDigest) (h : s.OfOlder d)
  | later (now : Nat) (via : Via) (d : MeshDigest) (h : s.OfLater d)
  | stop (now : Nat)

variable (s : Succession)

def deliver (v : DigestView) : s.Delivery → DigestView
  | .older now via d _ | .later now via d _ => (v.recordVia via d now).1
  | .stop now => (v.stopped s.stop now).1

/-- A view that holds nothing of the node, its own holder another. -/
structure Unknown (v : DigestView) : Prop where
  absent : v.Absent s.nodeId
  own : v.own ≠ some s.nodeId
  deleted : v.deleted[s.nodeId]? = none
  recovering : v.recovering[s.nodeId]? = none
  ended : s.stop.identity ∉ v.endedOverlays

/-- Neither birth is a held member, the node is not routable, and the view holds the later birth
stopped. -/
structure StopHeld (v : DigestView) : Prop where
  unheld : ∀ held, v.inner.map[s.nodeId]? = some held →
    held.digest.node.incarnation ≠ s.older ∧ held.digest.node.incarnation ≠ s.later
  unroutable : ∀ now, v.routable s.nodeId now = false
  stopped : v.holdsStopped s.nodeId s.later = true

/-- What is delivered. -/
inductive Kind where
  | older
  | later
  | stop
deriving DecidableEq

def Delivery.kind {s : Succession} : s.Delivery → Kind
  | .older .. => .older
  | .later .. => .later
  | .stop _ => .stop

/-- What a view makes of the births delivered so far; `ended` once it ended the stop. -/
inductive Phase where
  | clear
  | older (ended : Bool)
  | later (ended : Bool)
  | stopped
deriving DecidableEq

/-- The stop is dropped while the older birth is held, or once it ended; the older birth's digest is
dropped while the later is held, and ends the stop. -/
def Phase.next : Phase → Kind → Phase
  | clear, .older => .older false
  | clear, .later => .later false
  | clear, .stop => .stopped
  | .older ended, .later => .later ended
  | .older ended, _ => .older ended
  | .later false, .stop => .stopped
  | .later ended, _ => .later ended
  | stopped, .older => .older true
  | stopped, _ => .stopped

section Words

/-- A stop after these is not dropped for the older birth: it was not delivered, or the later was. -/
def Takeable (word : List Kind) : Prop := .older ∉ word ∨ .later ∈ word

/-- No stop was taken yet. -/
def Untaken (word : List Kind) : Prop := ∀ before after, word = before ++ .stop :: after → ¬ Takeable before

/-- No digest of the older birth comes after the first stop taken. -/
def StopLast (word : List Kind) : Prop :=
  ∃ before after, word = before ++ .stop :: after ∧ Untaken before ∧ Takeable before ∧ .older ∉ after

variable {word : List Kind} {kind : Kind}

theorem Untaken.of_append {tail : List Kind} (h : Untaken (word ++ tail)) : Untaken word := by
  rintro before after rfl
  exact h before (after ++ tail) (by simp)

/-- Every delivery order is without a stop taken, or has a first one. -/
theorem untaken_or_taken (word : List Kind) :
    Untaken word ∨ ∃ before after, word = before ++ .stop :: after ∧ Untaken before ∧ Takeable before := by
  induction word using List.reverseRecOn with
  | nil =>
    refine Or.inl fun before after h => ?_
    simp at h
  | append_singleton word kind ih =>
    rcases ih with huntaken | ⟨before, after, rfl, hbefore, htake⟩
    · by_cases htaken : kind = .stop ∧ Takeable word
      · exact Or.inr ⟨word, [], by rw [htaken.1], huntaken, htaken.2⟩
      · refine Or.inl fun before after h => ?_
        -- The stop is the last message, or one of those before it.
        rcases List.eq_nil_or_concat after with rfl | ⟨init, last, rfl⟩
        · obtain ⟨rfl, hk⟩ := List.append_inj' h rfl
          obtain rfl : kind = .stop := List.singleton_inj.mp hk
          exact fun ht => htaken ⟨rfl, ht⟩
        · rw [List.concat_eq_append, ← List.cons_append, ← List.append_assoc] at h
          exact huntaken before init (List.append_inj' h rfl).1
    · exact Or.inr ⟨before, after ++ [kind], by simp, hbefore, htake⟩

/-- Before a stop is taken the view holds the latest birth delivered. -/
theorem next_untaken (h : Untaken word) : word.foldl Phase.next .clear =
    if .later ∈ word then .later false else if .older ∈ word then .older false else .clear := by
  induction word using List.reverseRecOn with
  | nil => rfl
  | append_singleton word kind ih =>
    rw [List.foldl_append, List.foldl_cons, List.foldl_nil, ih h.of_append]
    cases kind with
    | older =>
      by_cases hlater : Kind.later ∈ word
      · simp [hlater, Phase.next]
      · by_cases holder : Kind.older ∈ word
        · simp [hlater, holder, Phase.next]
        · simp [hlater, holder, Phase.next]
    | later =>
      by_cases hlater : Kind.later ∈ word
      · simp [hlater, Phase.next]
      · by_cases holder : Kind.older ∈ word
        · simp [hlater, holder, Phase.next]
        · simp [hlater, holder, Phase.next]
    | stop =>
      have hdropped : ¬ Takeable word := h word [] rfl
      simp only [Takeable, not_or, not_not] at hdropped
      simp [hdropped.1, hdropped.2, Phase.next]

theorem next_taken (huntaken : Untaken word) (htake : Takeable word) :
    (word.foldl Phase.next .clear).next .stop = .stopped := by
  rw [next_untaken huntaken]
  by_cases hlater : Kind.later ∈ word
  · simp [hlater, Phase.next]
  · have holder : Kind.older ∉ word := htake.resolve_right hlater
    simp [hlater, holder, Phase.next]

/-- An ended stop is not taken again. -/
theorem next_ended {phase : Phase} (h : phase = .older true ∨ phase = .later true) (word : List Kind) :
    word.foldl Phase.next phase ≠ .stopped := by
  induction word generalizing phase with
  | nil => rcases h with rfl | rfl <;> simp
  | cons kind word ih =>
    refine ih ?_
    rcases h with rfl | rfl
    · cases kind with
      | older => exact Or.inl rfl
      | later => exact Or.inr rfl
      | stop => exact Or.inl rfl
    · cases kind with
      | older => exact Or.inr rfl
      | later => exact Or.inr rfl
      | stop => exact Or.inr rfl

theorem next_stopped (word : List Kind) : word.foldl Phase.next .stopped = .stopped ↔ .older ∉ word := by
  induction word with
  | nil => simp
  | cons kind word ih =>
    rw [List.foldl_cons]
    cases kind with
    | older => simpa [Phase.next] using next_ended (Or.inl rfl) word
    | later => simpa [Phase.next] using ih
    | stop => simpa [Phase.next] using ih

theorem stopped_iff_stopLast (word : List Kind) : word.foldl Phase.next .clear = .stopped ↔ StopLast word := by
  constructor
  · intro h
    rcases untaken_or_taken word with huntaken | ⟨before, after, rfl, huntaken, htake⟩
    · rw [next_untaken huntaken] at h
      split at h
      next => simp at h
      next =>
        split at h
        next => simp at h
        next => simp at h
    · rw [List.foldl_append, List.foldl_cons, next_taken huntaken htake, next_stopped] at h
      exact ⟨before, after, rfl, huntaken, htake, h⟩
  · rintro ⟨before, after, rfl, huntaken, htake, hafter⟩
    rw [List.foldl_append, List.foldl_cons, next_taken huntaken htake, next_stopped]
    exact hafter

end Words

def Phase.ended : Phase → Bool
  | .older ended | .later ended => ended
  | _ => false

/-- The birth a view holds in a phase. -/
def HoldsBirth (s : Succession) : Phase → Option MeshNode → Prop
  | .clear, held | .stopped, held => held = none
  | .older _, held => ∃ node, held = some node ∧ node.incarnation = s.older ∧ node.supersedes ≠ some s.later
  | .later _, held => ∃ node, held = some node ∧ node.incarnation = s.later ∧ node.supersedes = some s.older

/-- No stop of the node and no overlay of it is open. -/
structure Unmarked (v : DigestView) : Prop where
  mark : v.stoppedMarks[s.nodeId]? = none
  overlay : ∀ o ∈ v.inFlight, o.nodeId ≠ s.nodeId

/-- The later birth is marked stopped, under the one overlay of the node. -/
structure Marked (v : DigestView) : Prop where
  mark : ∃ m, v.stoppedMarks[s.nodeId]? = some m ∧ m.incarnation = s.later
  opened : s.stop ∈ v.inFlight
  overlay : ∀ o ∈ v.inFlight, o.nodeId = s.nodeId → o = s.stop

/-- The node is another than the view's holder, and neither departed, recovering nor projected. -/
structure Peer (v : DigestView) : Prop where
  own : v.own ≠ some s.nodeId
  deleted : v.deleted[s.nodeId]? = none
  recovering : v.recovering[s.nodeId]? = none
  projected : v.projected[s.nodeId]? = none

/-- The view is in the phase. -/
structure Shows (phase : Phase) (v : DigestView) : Prop extends s.Peer v where
  birth : s.HoldsBirth phase (v.heldNode s.nodeId)
  marked : phase = .stopped → s.Marked v
  unmarked : phase ≠ .stopped → s.Unmarked v
  ended : s.stop.identity ∈ v.endedOverlays ↔ phase.ended = true

namespace Shows

variable {s : Succession} {phase : Phase} {v w : DigestView} {d d' : MeshDigest} {via : Via} {now heardAt : Nat}
  {heard : Heard}

theorem unknown (h : s.Unknown v) : s.Shows .clear v where
  own := h.own
  deleted := h.deleted
  recovering := h.recovering
  projected := h.absent.projected
  birth := by
    unfold HoldsBirth DigestView.heldNode
    rw [h.absent.member]
    rfl
  marked hphase := by simp at hphase
  unmarked _ := ⟨h.absent.mark, h.absent.overlay⟩
  ended := ⟨fun hi => absurd hi h.ended, fun he => by simp [Phase.ended] at he⟩

/-- What says nothing of the node's births, departure or stop may change. -/
theorem aside (h : s.Shows phase v) (hown : w.own = v.own) (hdel : w.deleted[s.nodeId]? = none)
    (hrec : w.recovering = v.recovering) (hproj : w.projected[s.nodeId]? = none)
    (hbirth : w.heldNode s.nodeId = v.heldNode s.nodeId) (hmarks : w.stoppedMarks = v.stoppedMarks)
    (hflight : w.inFlight = v.inFlight) (hended : w.endedOverlays = v.endedOverlays) : s.Shows phase w where
  own := hown ▸ h.own
  deleted := hdel
  recovering := hrec ▸ h.recovering
  projected := hproj
  birth := hbirth ▸ h.birth
  marked hphase := by
    obtain ⟨hmark, hopened, hoverlay⟩ := h.marked hphase
    exact ⟨hmarks ▸ hmark, hflight ▸ hopened, hflight ▸ hoverlay⟩
  unmarked hphase := by
    obtain ⟨hmark, hoverlay⟩ := h.unmarked hphase
    exact ⟨hmarks ▸ hmark, hflight ▸ hoverlay⟩
  ended := hended ▸ h.ended

theorem expire (h : s.Shows phase v) (now : Nat) : s.Shows phase (v.expireDeletedAt now) := by
  refine h.aside rfl ?_ rfl h.projected rfl rfl rfl rfl
  rw [DigestView.expireDeletedAt_deleted, h.deleted]
  rfl

theorem woken (h : s.Shows phase v) (now : Nat) : s.Shows phase (v.woken now) := by
  have hbirth := v.heldNode_woken now s.nodeId
  rcases v.woken_cases now with hw | hw
  · rw [hw]
    exact h
  · rw [hw] at hbirth ⊢
    refine h.aside rfl h.deleted rfl ?_ hbirth rfl rfl rfl
    unfold DigestView.restartSilence
    rw [Std.ExtTreeMap.getElem?_map, h.projected]
    rfl

/-- A digest held of one of the births. -/
theorem hold (h : s.Peer v) (hunmarked : s.Unmarked v) (hnode : d'.node = d.node) (hid : d.node.nodeId = s.nodeId)
    (hphase : phase ≠ .stopped) (hbirth : s.HoldsBirth phase (some d.node))
    (hended : s.stop.identity ∈ v.endedOverlays ↔ phase.ended = true) :
    s.Shows phase (v.hold d' heardAt heard) where
  own := h.own
  deleted := h.deleted
  recovering := h.recovering
  projected := h.projected
  birth := by
    rw [← hid, DigestView.heldNode_hold hnode]
    exact hbirth
  marked hstopped := absurd hstopped hphase
  unmarked _ := ⟨hunmarked.mark, hunmarked.overlay⟩
  ended := hended

/-- With no stop held a digest is installed by the rules of any birth. -/
theorem recordVia_eq (h : s.Shows phase v) (hphase : phase ≠ .stopped) (hid : d.node.nodeId = s.nodeId) :
    v.recordVia via d now = (v.expireDeletedAt now).install via d now := by
  refine DigestView.recordVia_unmarked ?_ ?_ ?_
  · rw [hid]
    exact h.deleted
  · rw [hid]
    exact h.recovering
  · rw [hid]
    exact (h.unmarked hphase).mark

/-- A digest of the birth held keeps the phase, whether it is taken or refused. -/
theorem again (h : s.Shows phase v) (hphase : phase ≠ .stopped) (hid : d.node.nodeId = s.nodeId)
    (hbirth : s.HoldsBirth phase (some d.node)) : s.Shows phase (v.recordVia via d now).1 := by
  have hexpired := h.expire now
  rw [h.recordVia_eq hphase hid]
  rcases (v.expireDeletedAt now).install_cases via d now with hw | ⟨d', heardAt, heard, hnode, hw⟩
  · rw [hw]
    exact hexpired
  · rw [hw]
    exact hold hexpired.toPeer (hexpired.unmarked hphase) hnode hid hphase hbirth hexpired.ended

/-- The first digest of a birth, or the first of the later one, is held. -/
theorem first {phase' : Phase} (h : s.Shows phase v) (hphase : phase ≠ .stopped) (hid : d.node.nodeId = s.nodeId)
    (hother : ∀ node, v.heldNode s.nodeId = some node →
      node.incarnation ≠ d.node.incarnation ∧ node.supersedes ≠ some d.node.incarnation)
    (hphase' : phase' ≠ .stopped) (hbirth : s.HoldsBirth phase' (some d.node)) (hended : phase'.ended = phase.ended) :
    s.Shows phase' (v.recordVia via d now).1 := by
  have hexpired := h.expire now
  have hheld : ∀ node, (v.expireDeletedAt now).heldNode d.node.nodeId = some node →
      node.incarnation ≠ d.node.incarnation ∧ node.supersedes ≠ some d.node.incarnation := by
    intro node hnode
    rw [hid] at hnode
    exact hother node hnode
  obtain ⟨d', heardAt, heard, hnode, hw⟩ := @DigestView.install_holds _ via _ now hheld
  rw [h.recordVia_eq hphase hid, hw]
  refine hold hexpired.toPeer (hexpired.unmarked hphase) hnode hid hphase' hbirth ?_
  rw [hended]
  exact hexpired.ended

/-- A digest of the older birth ends the stop of the later one, and is held. -/
theorem ends (h : s.Shows .stopped v) (hd : s.OfOlder d) : s.Shows (.older true) (v.recordVia via d now).1 := by
  obtain ⟨⟨mark, hmark, hbirth⟩, hopened, hoverlay⟩ := h.marked rfl
  have hexpired := h.expire now
  have hother : mark.incarnation ≠ d.node.incarnation := by
    rw [hbirth, hd.birth]
    exact s.births.symm
  have hrecord : v.recordVia via d now = ((v.expireDeletedAt now).endStop s.nodeId).install via d now := by
    rw [← hd.node] at hmark ⊢
    exact DigestView.recordVia_ends (hd.node.symm ▸ h.deleted) (hd.node.symm ▸ h.recovering) hmark hother hd.ready
  have hnone : ∀ node, ((v.expireDeletedAt now).endStop s.nodeId).heldNode d.node.nodeId = some node →
      node.incarnation ≠ d.node.incarnation ∧ node.supersedes ≠ some d.node.incarnation := by
    intro node hnode
    rw [hd.node] at hnode
    exact absurd (hexpired.birth.symm.trans hnode) (by simp)
  obtain ⟨d', heardAt, heard, hnode, hw⟩ := @DigestView.install_holds _ via _ now hnone
  rw [hrecord, hw]
  refine hold ⟨h.own, hexpired.deleted, h.recovering, h.projected⟩ ⟨?_, ?_⟩ hnode hd.node (by simp)
    ⟨_, rfl, hd.birth, hd.supersedes⟩ ⟨fun _ => rfl, fun _ => ?_⟩
  · rw [DigestView.endStop_marks, if_pos rfl]
  · intro o ho hn
    obtain ⟨ho, hstop⟩ := DigestView.mem_endStop.mp ho
    have hsame : o = s.stop := hoverlay o ho hn
    exact hstop ⟨hsame ▸ s.stops, hn⟩
  · refine DigestView.mem_ended_endOverlays.mpr (Or.inr ⟨s.stop, hopened, ?_, rfl⟩)
    simp [s.stops, s.node]

theorem older (h : s.Shows phase v) (hd : s.OfOlder d) : s.Shows (phase.next .older) (v.recordVia via d now).1 := by
  have hbirth : ∀ ended, s.HoldsBirth (.older ended) (some d.node) :=
    fun ended => ⟨d.node, rfl, hd.birth, hd.supersedes⟩
  cases phase with
  | clear =>
    refine h.first (by simp) hd.node ?_ (by simp [Phase.next]) (hbirth false) rfl
    intro node hnode
    exact absurd (h.birth.symm.trans hnode) (by simp)
  | older ended => exact h.again (by simp) hd.node (hbirth ended)
  | later ended =>
    obtain ⟨node, hnode, hinc, hsupersedes⟩ := h.birth
    have hrefused : ((v.expireDeletedAt now).install via d now).1 = v.expireDeletedAt now := by
      refine DigestView.install_superseded (hd.node.symm ▸ hnode) ?_ ?_
      · rw [hinc, hd.birth]
        exact s.births.symm
      · rw [hsupersedes, hd.birth]
    rw [h.recordVia_eq (by simp) hd.node, hrefused]
    cases ended with
    | false => exact h.expire now
    | true => exact h.expire now
  | stopped => exact h.ends hd

theorem later (h : s.Shows phase v) (hd : s.OfLater d) : s.Shows (phase.next .later) (v.recordVia via d now).1 := by
  have hbirth : ∀ ended, s.HoldsBirth (.later ended) (some d.node) :=
    fun ended => ⟨d.node, rfl, hd.birth, hd.supersedes⟩
  cases phase with
  | clear =>
    refine h.first (by simp) hd.node ?_ (by simp [Phase.next]) (hbirth false) rfl
    intro node hnode
    exact absurd (h.birth.symm.trans hnode) (by simp)
  | older ended =>
    refine h.first (by simp) hd.node ?_ (by simp [Phase.next]) (hbirth ended) rfl
    intro node hnode
    obtain ⟨held, hheld, hinc, hsupersedes⟩ := h.birth
    obtain rfl : held = node := Option.some.inj (hheld.symm.trans hnode)
    rw [hinc, hd.birth]
    exact ⟨s.births, hsupersedes⟩
  | later ended =>
    have hagain : s.Shows (.later ended) (v.recordVia via d now).1 := h.again (by simp) hd.node (hbirth ended)
    cases ended with
    | false => exact hagain
    | true => exact hagain
  | stopped =>
    obtain ⟨⟨mark, hmark, hinc⟩, hopened, hoverlay⟩ := h.marked rfl
    rw [← hd.node] at hmark
    rw [DigestView.recordVia_stopped (hd.node.symm ▸ h.deleted) (hd.node.symm ▸ h.recovering) hmark
      (hinc.trans hd.birth.symm) hd.ready]
    have hexpired := h.expire now
    have hkept : ∃ m, (v.stoppedMarks.insert d.node.nodeId (mark.keep d via now))[s.nodeId]? = some m ∧
        m.incarnation = s.later := by
      refine ⟨mark.keep d via now, ?_, ?_⟩
      · rw [getElem?_insert_eq, if_pos hd.node]
      · rw [(StopMark.Kept.keep mark d via now).incarnation, hinc]
    exact ⟨⟨h.own, hexpired.deleted, h.recovering, h.projected⟩, hexpired.birth,
      fun _ => ⟨hkept, hopened, hoverlay⟩, fun hne => absurd rfl hne, h.ended⟩

/-- The birth the view holds decides on a stop. -/
theorem stopped_eq (h : s.Shows phase v) : v.stopped s.stop now =
    if (v.heldNode s.nodeId).any fun node => node.incarnation != s.later then ((v.expireDeletedAt now).woken now, false)
    else ((v.expireDeletedAt now).woken now).takeStop s.stop none
      (((v.expireDeletedAt now).woken now).heldDigest s.nodeId) := by
  have hwoken := (h.expire now).woken now
  have hheld : (((v.expireDeletedAt now).woken now).heldDigest s.nodeId).any (fun d => d.node.incarnation != s.later) =
      (v.heldNode s.nodeId).any fun node => node.incarnation != s.later := by
    have hsame : ((v.expireDeletedAt now).woken now).heldNode s.nodeId = v.heldNode s.nodeId :=
      (v.expireDeletedAt now).heldNode_woken now s.nodeId
    rw [← hsame, ← DigestView.heldDigest_node hwoken.projected, Option.any_map]
  unfold DigestView.stopped
  rw [DigestView.stoppedCarried_eq (s.node.symm ▸ h.deleted) (s.node.symm ▸ h.own), s.node, s.birth, hheld]

/-- A stop with no birth held, or exactly the one it names, is taken. -/
theorem taken (h : s.Shows phase v) (hphase : phase = .clear ∨ phase = .later false) :
    s.Shows .stopped (v.stopped s.stop now).1 := by
  have hwoken := (h.expire now).woken now
  have hheld : (v.heldNode s.nodeId).any (fun node => node.incarnation != s.later) = false := by
    rw [Option.any_eq_false]
    intro node hnode
    rcases hphase with rfl | rfl
    · exact absurd (h.birth.symm.trans hnode) (by simp)
    · obtain ⟨held, hheld, hinc, -⟩ := h.birth
      obtain rfl : held = node := Option.some.inj (hheld.symm.trans hnode)
      simp [hinc]
  have hunmarked : s.Unmarked ((v.expireDeletedAt now).woken now) :=
    hwoken.unmarked (by rcases hphase with rfl | rfl <;> simp)
  have hended : s.stop.identity ∉ ((v.expireDeletedAt now).woken now).endedOverlays := by
    intro hi
    rw [hwoken.ended] at hi
    rcases hphase with rfl | rfl <;> simp [Phase.ended] at hi
  have hopen : ∀ o ∈ ((v.expireDeletedAt now).woken now).inFlight, o.identity ≠ s.stop.identity := by
    intro o ho hid
    exact hunmarked.overlay o ho ((congrArg LifecycleIdentity.nodeId hid).trans s.node)
  rw [h.stopped_eq, hheld]
  obtain ⟨mark, hmark, hw⟩ := DigestView.takeStop_opens hended hopen
  simp only [Bool.false_eq_true, if_false]
  rw [hw]
  refine ⟨⟨hwoken.own, hwoken.deleted, hwoken.recovering, ?_⟩, ?_, fun _ => ⟨⟨mark, ?_, ?_⟩, ?_, ?_⟩,
    fun hne => absurd rfl hne, ⟨fun hi => absurd hi hended, fun he => by simp [Phase.ended] at he⟩⟩
  · exact s.node ▸ DigestView.Barrier.erase_self _ _
  · unfold HoldsBirth DigestView.heldNode DigestView.stop
    rw [HeldMembers.remove_map, s.node, DigestView.Barrier.erase_self]
    rfl
  · unfold DigestView.stop
    dsimp only
    rw [getElem?_insert_eq, if_pos s.node]
  · rw [hmark, s.birth]
  · exact OpenOverlays.mem_put.mpr (Or.inl rfl)
  · intro o ho hn
    rcases OpenOverlays.mem_put.mp ho with rfl | ⟨ho, -⟩
    · rfl
    · exact absurd hn (hunmarked.overlay o ho)

theorem stop (h : s.Shows phase v) : s.Shows (phase.next .stop) (v.stopped s.stop now).1 := by
  have hwoken := (h.expire now).woken now
  cases phase with
  | clear => exact h.taken (Or.inl rfl)
  | older ended =>
    obtain ⟨node, hnode, hinc, -⟩ := h.birth
    rw [h.stopped_eq, hnode]
    simp only [Option.any_some, hinc, bne_iff_ne, ne_eq, s.births, not_false_eq_true, if_true]
    exact hwoken
  | later ended =>
    cases ended with
    | false => exact h.taken (Or.inr rfl)
    | true =>
      obtain ⟨node, hnode, hinc, -⟩ := h.birth
      rw [h.stopped_eq, hnode]
      simp only [Option.any_some, hinc, bne_self_eq_false, Bool.false_eq_true, if_false]
      rw [DigestView.takeStop_closed (Or.inl (hwoken.ended.mpr rfl))]
      exact hwoken
  | stopped =>
    have hnone : v.heldNode s.nodeId = none := h.birth
    rw [h.stopped_eq, hnone]
    simp only [Option.any_none, Bool.false_eq_true, if_false]
    rw [DigestView.takeStop_closed (Or.inr (hwoken.marked rfl).opened)]
    exact hwoken

theorem deliver (h : s.Shows phase v) (x : s.Delivery) : s.Shows (phase.next x.kind) (s.deliver v x) := by
  cases x with
  | older now via d hd => exact h.older hd
  | later now via d hd => exact h.later hd
  | stop now => exact h.stop

theorem run (h : s.Shows phase v) (word : List s.Delivery) :
    s.Shows ((word.map Delivery.kind).foldl Phase.next phase) (word.foldl s.deliver v) := by
  induction word generalizing phase v with
  | nil => exact h
  | cons x word ih => exact ih (h.deliver x)

/-- The stop is held exactly in the stopped phase. -/
theorem stopHeld_iff (h : s.Shows phase v) : s.StopHeld v ↔ phase = .stopped := by
  constructor
  · intro hheld
    by_contra hphase
    obtain ⟨m, hm, -⟩ := DigestView.holdsStopped_iff.mp hheld.stopped
    rw [(h.unmarked hphase).mark] at hm
    simp at hm
  · rintro rfl
    obtain ⟨hmark, hopened, -⟩ := h.marked rfl
    refine ⟨?_, ?_, DigestView.holdsStopped_iff.mpr hmark⟩
    · intro held hheld
      have hnode : v.heldNode s.nodeId = some held.digest.node := by
        unfold DigestView.heldNode
        rw [hheld]
        rfl
      exact absurd (h.birth.symm.trans hnode) (by simp)
    · intro now
      have hany : (v.expireDeletedAt now).inFlight.list.any (fun op => op.nodeId == s.nodeId) = true := by
        rw [List.any_eq_true]
        exact ⟨s.stop, OpenOverlays.mem_list.mpr hopened, beq_iff_eq.mpr s.node⟩
      unfold DigestView.routable
      simp only [hany, Bool.or_true, if_true]

end Shows

/-- In every order in which a view that holds nothing of the node takes digests of both births and the
stop of the later one, the stop wins exactly when no digest of the older birth comes after the first
stop taken. -/
theorem stop_wins_iff (s : Succession) (v : DigestView) (hv : s.Unknown v) (word : List s.Delivery) :
    s.StopHeld (word.foldl s.deliver v) ↔ StopLast (word.map Delivery.kind) := by
  rw [((Shows.unknown hv).run word).stopHeld_iff]
  exact stopped_iff_stopLast _

/-- Births `b1` and `b2` of a node of a peer mesh, and the stop of `b2`. -/
def sample : Succession where
  nodeId := "n1"
  older := "b1"
  later := "b2"
  stop := World.opOf "node.stop" "build1" "b2"
  births := by decide
  node := rfl
  birth := rfl
  stops := by decide

def sampleOlder (now : Nat) (via : Via) (digestSeq : Nat) : sample.Delivery :=
  .older now via (World.digestOf "b1" none .ready digestSeq) ⟨rfl, rfl, by simp [World.digestOf], rfl⟩

def sampleLater (now : Nat) (via : Via) (digestSeq : Nat) : sample.Delivery :=
  .later now via (World.digestOf "b2" (some "b1") .ready digestSeq) ⟨rfl, rfl, rfl, rfl⟩

theorem sample_unknown : sample.Unknown (DigestView.withFloor 10 3) := by
  refine ⟨⟨?_, ?_, ?_, fun _ ho => absurd ho OpenOverlays.not_mem_empty⟩, by simp [DigestView.withFloor],
    ?_, ?_, ?_⟩
  all_goals simp [DigestView.withFloor, HeldMembers.empty]

/-- The stop comes after a digest of each birth, and a digest of the later one after it. -/
theorem stop_wins_iff_last :
    sample.StopHeld ([sampleOlder 0 .heartbeat 1, sampleLater 1 .forwarded 1, .stop 2, sampleLater 3 .topology 2].foldl
      sample.deliver (.withFloor 10 3)) := by
  rw [stop_wins_iff sample _ sample_unknown]
  refine ⟨[.older, .later], [.later], rfl, ?_, Or.inr (by decide), by decide⟩
  intro before after h
  have hstop : Kind.stop ∈ [Kind.older, Kind.later] := by
    rw [h]
    simp
  exact absurd hstop (by decide)

/-- The stop is heard while only the older birth is held. -/
def heldOlder : DigestView := [sampleOlder 0 .heartbeat 1, .stop 1].foldl sample.deliver (.withFloor 10 3)

/-- The stop is heard first. -/
def endedByOlder : DigestView := [.stop 0, sampleOlder 1 .topology 1].foldl sample.deliver (.withFloor 10 3)

/-- After an older digest ended the stop, a copy of the stop is dropped. -/
def stoppedAgain : DigestView :=
  [sampleLater 1 .forwarded 1, .stop 2].foldl sample.deliver endedByOlder

/-- The older birth stays held under a stop it drops, or comes back and ends it; no copy of the stop is
taken then. -/
theorem stop_loses :
    (¬ sample.StopHeld heldOlder ∧ (heldOlder.heldNode "n1").map MeshNode.incarnation = some "b1") ∧
      (¬ sample.StopHeld endedByOlder ∧ (endedByOlder.heldNode "n1").map MeshNode.incarnation = some "b1") ∧
      (¬ sample.StopHeld stoppedAgain ∧ (stoppedAgain.heldNode "n1").map MeshNode.incarnation = some "b2") := by
  have hmark : ∀ v : DigestView, v.holdsStopped "n1" "b2" = false → ¬ sample.StopHeld v := by
    intro v hv h
    have hstopped : v.holdsStopped "n1" "b2" = true := h.stopped
    rw [hv] at hstopped
    simp at hstopped
  refine ⟨⟨hmark _ ?_, ?_⟩, ⟨hmark _ ?_, ?_⟩, ⟨hmark _ ?_, ?_⟩⟩
  · decide +kernel
  · decide +kernel
  · decide +kernel
  · decide +kernel
  · decide +kernel
  · decide +kernel

end Succession

end DistributedMesh
