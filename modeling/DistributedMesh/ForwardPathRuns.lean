import DistributedMesh.ForwardPath

namespace DistributedMesh

open Std (ExtTreeMap)
open KeyedMaps

namespace ForwardPath

variable {L : Type} {encode : Frame → Bytes} {p : ForwardPath L}

/-- The entries a call queues. -/
def queued (encode : Frame → Bytes) (p : ForwardPath L) (c : PathCall L) : List (Job L) :=
  (p.call encode c).queue.drop p.queue.length

/-- The entries the calls queue, in the order they are decided. -/
def decisions (encode : Frame → Bytes) (p : ForwardPath L) : List (PathCall L) → List (Job L)
  | [] => []
  | c :: calls => p.queued encode c ++ (p.call encode c).decisions encode calls

/-- What a call that is no step of the sender does: it queues entries behind the others, and leaves the sender. -/
structure Queues (p q : ForwardPath L) : Prop where
  queue : ∃ jobs, q.queue = p.queue ++ jobs
  sender : q.sender = p.sender
  sent : q.sent = p.sent
  revision : p.roleRevision ≤ q.roleRevision

theorem Queues.refl (p : ForwardPath L) : Queues p p := ⟨⟨[], by simp⟩, rfl, rfl, Nat.le_refl _⟩

theorem Queues.trans {q r : ForwardPath L} (h : Queues p q) (h' : Queues q r) : Queues p r := by
  obtain ⟨jobs, hjobs⟩ := h.queue
  obtain ⟨jobs', hjobs'⟩ := h'.queue
  refine ⟨⟨jobs ++ jobs', ?_⟩, h'.sender.trans h.sender, h'.sent.trans h.sent, h.revision.trans h'.revision⟩
  rw [hjobs', hjobs, List.append_assoc]

theorem queues_enqueue (p : ForwardPath L) (job : Job L) : Queues p (p.enqueue job) := by
  simp only [enqueue]
  split
  next => exact ⟨⟨[job], rfl⟩, rfl, rfl, Nat.le_refl _⟩
  next => exact ⟨⟨[], by simp⟩, rfl, rfl, Nat.le_refl _⟩

/-- A forwarder or a flag that changes leaves the queue and the sender. -/
theorem queues_forwarder (p : ForwardPath L) (fw : Forwarder) : Queues p { p with forwarder := fw } :=
  ⟨⟨[], by simp⟩, rfl, rfl, Nat.le_refl _⟩

theorem queues_due (p : ForwardPath L) (due : Option Bool) : Queues p { p with due := due } :=
  ⟨⟨[], by simp⟩, rfl, rfl, Nat.le_refl _⟩

theorem queues_source (p : ForwardPath L) (me : String) (offer : Offer) (now : Nat) :
    Queues p (p.source encode me offer now) := by
  simp only [source]
  split
  next => exact .refl p
  next =>
    split
    next => exact queues_forwarder p _
    next => exact (queues_forwarder p _).trans (queues_enqueue _ _)

theorem queues_fulls (p : ForwardPath L) (me : String) (held : List Offer) (now : Nat) :
    Queues p (p.fulls encode me held now) := by
  simp only [fulls]
  split
  next => exact .refl p
  next => exact (queues_forwarder p _).trans (queues_enqueue _ _)

/-- A call queues, or is a step of the sender. -/
theorem call_cases (encode : Frame → Bytes) (p : ForwardPath L) (c : PathCall L) : Queues p (p.call encode c) ∨
    p.call encode c = p.receive ∨ p.call encode c = p.checkRole ∨ ∃ taken, p.call encode c = p.hand taken := by
  cases c with
  | source me offer now => exact .inl (queues_source p me offer now)
  | fulls me held now => exact .inl (queues_fulls p me held now)
  | setRole on =>
    left
    simp only [call, setRole]
    split
    next => exact .refl p
    next => exact ⟨⟨[], by simp⟩, rfl, rfl, Nat.le_succ _⟩
  | carry frame =>
    left
    simp only [call, carry]
    split
    next => exact .refl p
    next => exact queues_enqueue p _
  | replay me frames now =>
    left
    simp only [call, replay]
    split
    next =>
      split
      next => exact .refl p
      next => exact queues_enqueue p _
    next =>
      split
      next => exact queues_forwarder p _
      next => exact (queues_forwarder p _).trans (queues_enqueue _ _)
  | takeDue => exact .inl ⟨⟨[], by simp [call, takeDue]⟩, rfl, rfl, Nat.le_refl _⟩
  | publish me held own now =>
    left
    simp only [call, publish]
    split
    next => exact .refl p
    next => exact (queues_due p none).trans (queues_fulls _ me held now)
    next => exact (queues_due p none).trans (queues_source _ me own now)
  | receive => exact .inr (.inl rfl)
  | checkRole => exact .inr (.inr (.inl rfl))
  | hand taken => exact .inr (.inr (.inr ⟨taken, rfl⟩))
  | senderGone => exact .inl ⟨⟨[], by simp [call]⟩, rfl, rfl, Nat.le_refl _⟩

/-- What a step of the sender does: it takes the next entry, drops it or goes on with its frames, skips a frame, or
hands one over. -/
theorem receive_cases (p : ForwardPath L) : p.receive = p ∨
    ∃ job queue, p.sender = .waiting ∧ p.queue = job :: queue ∧
      p.receive = { p with sender := .received job, queue := queue } := by
  simp only [receive]
  split
  next job queue halive hsender hqueue => exact .inr ⟨job, queue, hsender, hqueue, rfl⟩
  next => exact .inl rfl

theorem checkRole_cases (p : ForwardPath L) : p.checkRole = p ∨
    ∃ job, p.sender = .received job ∧
      ((p.checkRole = { p with sender := .upTo job.revision [] job.frames } ∧
          (job.revision = none ∨ p.role = job.revision)) ∨
        (p.checkRole = { p with sender := .waiting } ∧ job.revision ≠ none ∧ p.role ≠ job.revision)) := by
  simp only [checkRole]
  split
  next job halive hsender =>
    refine .inr ⟨job, hsender, ?_⟩
    split
    next hcurrent => exact .inl ⟨rfl, hcurrent⟩
    next hold => exact .inr ⟨rfl, fun h => hold (.inl h), fun h => hold (.inr h)⟩
  next => exact .inl rfl

theorem hand_cases (p : ForwardPath L) (taken : Bool) : p.hand taken = p ∨
    ∃ revision frame frames refused, p.sender = .sending revision (frame :: frames) refused ∧
      (((p.hand taken) = { p with sender := .upTo revision refused frames } ∧ ∃ mesh ∈ refused, frame.mesh = some mesh) ∨
        ∃ refused', p.hand taken =
          { p with
            sent := p.sent ++ [⟨revision, frame, taken⟩]
            owesFull := p.owesFull || (frame.mesh.isSome && !taken)
            sender := .upTo revision refused' frames }) := by
  simp only [hand]
  split
  next revision frame frames refused halive hsender =>
    refine .inr ⟨revision, frame, frames, refused, hsender, ?_⟩
    split
    next mesh hmesh =>
      split
      next hrefused => exact .inl ⟨rfl, mesh, hrefused, hmesh⟩
      next => exact .inr ⟨if taken then refused else mesh :: refused, by simp [hmesh]⟩
    next hmesh => exact .inr ⟨refused, by simp [hmesh]⟩
  next => exact .inl rfl

/-- What stands before the channel and beyond it: what was handed over, what the sender holds and what is queued. -/
def line (p : ForwardPath L) : List (ChannelFrame L) :=
  p.sent.map Sent.frame ++ (p.sender.frames ++ p.queue.flatMap Job.frames)

theorem Queues.line {q : ForwardPath L} (h : Queues p q) :
    q.line = p.line ++ (q.queue.drop p.queue.length).flatMap Job.frames := by
  obtain ⟨jobs, hjobs⟩ := h.queue
  rw [ForwardPath.line, ForwardPath.line, h.sender, h.sent, hjobs, List.drop_left, List.flatMap_append]
  simp only [List.append_assoc]

/-- A step of the sender queues nothing, and puts nothing into the line. -/
theorem line_sender_step {q : ForwardPath L} (hq : q = p.receive ∨ q = p.checkRole ∨ ∃ taken, q = p.hand taken) :
    q.line.Sublist p.line ∧ q.queue.drop p.queue.length = [] := by
  rcases hq with rfl | rfl | ⟨taken, rfl⟩
  · obtain heq | ⟨job, queue, hsender, hqueue, heq⟩ := receive_cases p
    · rw [heq]
      exact ⟨.refl _, by simp⟩
    · rw [heq, line, line, hsender, hqueue]
      refine ⟨?_, by simp⟩
      simp
  · obtain heq | ⟨job, hsender, ⟨heq, -⟩ | ⟨heq, -⟩⟩ := checkRole_cases p
    · rw [heq]
      exact ⟨.refl _, by simp⟩
    · rw [heq, line, line, hsender]
      refine ⟨?_, by simp⟩
      simp only [Sender.frames_upTo, Sender.frames_received]
      exact .refl _
    · rw [heq, line, line, hsender]
      refine ⟨?_, by simp⟩
      refine List.Sublist.append_left ?_ _
      exact (List.nil_sublist _).append (.refl _)
  · obtain heq | ⟨revision, frame, frames, refused, hsender, ⟨heq, -⟩ | ⟨refused', heq⟩⟩ := hand_cases p taken
    · rw [heq]
      exact ⟨.refl _, by simp⟩
    · rw [heq, line, line, hsender]
      refine ⟨?_, by simp⟩
      simp only [Sender.frames_upTo, Sender.frames_sending]
      exact List.Sublist.append_left ((List.sublist_cons_self _ _).append (.refl _)) _
    · rw [heq, line, line, hsender]
      refine ⟨?_, by simp⟩
      simp

theorem line_call (c : PathCall L) :
    (p.call encode c).line.Sublist (p.line ++ (p.queued encode c).flatMap Job.frames) := by
  rcases call_cases encode p c with hqueues | hstep
  · rw [queued, ← hqueues.line]
  · obtain ⟨hline, hqueue⟩ := line_sender_step hstep
    rw [queued, hqueue]
    simpa using hline

theorem line_run (encode : Frame → Bytes) (p : ForwardPath L) (calls : List (PathCall L)) :
    (p.run encode calls).line.Sublist (p.line ++ (p.decisions encode calls).flatMap Job.frames) := by
  induction calls generalizing p with
  | nil => simp [run, decisions]
  | cons c calls ih =>
    refine (ih (p.call encode c)).trans ?_
    rw [decisions, List.flatMap_append, ← List.append_assoc]
    exact (line_call c).append (.refl _)

/-- What is put on the channel is what was decided, in the order it was decided, and no frame of it twice. -/
theorem sent_in_decision_order (author : Birth) (snapshots : Nat) (ownMesh : String) (calls : List (PathCall L)) :
    (((pair author snapshots ownMesh : ForwardPath L).run encode calls).sent.map Sent.frame).Sublist
      (((pair author snapshots ownMesh).decisions encode calls).flatMap Job.frames) := by
  have hline := line_run encode (pair author snapshots ownMesh : ForwardPath L) calls
  have hempty : (pair author snapshots ownMesh : ForwardPath L).line = [] := rfl
  rw [hempty, List.nil_append] at hline
  exact (List.sublist_append_left _ _).trans hline

section Terms

/-- The frames of an entry the sender checked. -/
def checked (p : ForwardPath L) : List (ChannelFrame L) :=
  match p.sender with
  | .sending _ frames _ => frames
  | _ => []

/-- The term of an entry the sender checked. -/
def term (p : ForwardPath L) : Option Nat :=
  match p.sender with
  | .sending revision _ _ => revision
  | _ => none

theorem checked_upTo {revision : Option Nat} {refused : List String} {frames : List (ChannelFrame L)}
    (h : p.sender = .upTo revision refused frames) : p.checked = frames := by
  cases frames <;> simp [checked, h, Sender.upTo]

theorem term_upTo {revision : Option Nat} {refused : List String} {frames : List (ChannelFrame L)}
    (h : p.sender = .upTo revision refused frames) : p.term = none ∨ p.term = revision := by
  cases frames with
  | nil => exact .inl (by simp [term, h, Sender.upTo])
  | cons frame frames => exact .inr (by simp [term, h, Sender.upTo])

/-- What was sent since the role moved on from the term `old`: the rest of the entry that was in the sender's hands,
and entries of later terms. -/
structure Since (base : List (Sent L)) (old : Nat) (held : List (ChannelFrame L)) (p : ForwardPath L)
    (rest later : List (Sent L)) : Prop where
  sent : p.sent = base ++ rest ++ later
  rest_held : (rest.map Sent.frame).Sublist held
  later_term : ∀ e ∈ later, ∀ r, e.revision = some r → old < r
  hand : (later = [] ∧ (rest.map Sent.frame ++ p.checked).Sublist held) ∨ ∀ r, p.term = some r → old < r

variable {base : List (Sent L)} {old : Nat} {held : List (ChannelFrame L)} {rest later : List (Sent L)}

theorem Since.of_sender {q : ForwardPath L} (h : Since base old held p rest later) (hsender : q.sender = p.sender)
    (hsent : q.sent = p.sent) : Since base old held q rest later := by
  refine ⟨hsent.trans h.sent, h.rest_held, h.later_term, ?_⟩
  have hchecked : q.checked = p.checked := by rw [checked, checked, hsender]
  have hterm : q.term = p.term := by rw [term, term, hsender]
  rw [hchecked, hterm]
  exact h.hand

/-- The sender goes on with an entry of a later term, or of none. -/
theorem Since.of_term {q : ForwardPath L} (h : Since base old held p rest later) (hsent : q.sent = p.sent)
    (hterm : ∀ r, q.term = some r → old < r) : Since base old held q rest later :=
  ⟨hsent.trans h.sent, h.rest_held, h.later_term, .inr hterm⟩

theorem Since.hand_step (h : Since base old held p rest later) (taken : Bool) :
    ∃ rest' later' : List (Sent L), Since base old held (p.hand taken) rest' later' := by
  obtain heq | ⟨revision, frame, frames, refused, hsender, ⟨heq, -⟩ | ⟨refused', heq⟩⟩ := hand_cases p taken
  · rw [heq]
    exact ⟨rest, later, h⟩
  · refine ⟨rest, later, ?_⟩
    have hsend : (p.hand taken).sender = .upTo revision refused frames := by rw [heq]
    have hold : p.checked = frame :: frames := by simp [checked, hsender]
    have hterm : p.term = revision := by simp [term, hsender]
    refine ⟨by rw [heq]; exact h.sent, h.rest_held, h.later_term, ?_⟩
    rcases h.hand with ⟨hlater, hheld⟩ | hheld
    · left
      refine ⟨hlater, ?_⟩
      rw [checked_upTo hsend]
      rw [hold] at hheld
      exact (List.Sublist.append_left (List.sublist_cons_self _ _) _).trans hheld
    · right
      intro r hr
      rcases term_upTo hsend with hnone | hsome
      · rw [hnone] at hr
        cases hr
      · exact hheld r (hterm.trans (hsome ▸ hr))
  · have hsend : (p.hand taken).sender = .upTo revision refused' frames := by rw [heq]
    have hsent : (p.hand taken).sent = p.sent ++ [⟨revision, frame, taken⟩] := by rw [heq]
    have hold : p.checked = frame :: frames := by simp [checked, hsender]
    have hterm : p.term = revision := by simp [term, hsender]
    rcases h.hand with ⟨hlater, hheld⟩ | hheld
    · rw [hold] at hheld
      have hmoved : ((rest ++ [(⟨revision, frame, taken⟩ : Sent L)]).map Sent.frame ++ frames).Sublist held := by simpa using hheld
      refine ⟨rest ++ [⟨revision, frame, taken⟩], [], ?_, ?_, by simp, .inl ⟨rfl, ?_⟩⟩
      · rw [hsent, h.sent, hlater]
        simp
      · exact (List.sublist_append_left _ _).trans hmoved
      · rw [checked_upTo hsend]
        exact hmoved
    · refine ⟨rest, later ++ [⟨revision, frame, taken⟩], ?_, h.rest_held, ?_, .inr fun r hr => ?_⟩
      · rw [hsent, h.sent]
        simp
      · intro e he r hr
        rcases List.mem_append.mp he with he | he
        · exact h.later_term e he r hr
        · rw [List.mem_singleton.mp he] at hr
          exact hheld r (hterm.trans hr)
      · rcases term_upTo hsend with hnone | hsome
        · rw [hnone] at hr
          cases hr
        · exact hheld r (hterm.trans (hsome ▸ hr))

theorem Since.call (h : Since base old held p rest later) (hold : old < p.roleRevision) (encode : Frame → Bytes)
    (c : PathCall L) :
    ∃ rest' later', Since base old held (p.call encode c) rest' later' := by
  rcases call_cases encode p c with hqueues | hcall | hcall | ⟨taken, hcall⟩
  · exact ⟨rest, later, h.of_sender hqueues.sender hqueues.sent⟩
  · refine ⟨rest, later, ?_⟩
    rw [hcall]
    obtain heq | ⟨job, queue, -, -, heq⟩ := receive_cases p
    · rw [heq]
      exact h
    · rw [heq]
      exact h.of_term rfl fun r hr => by simp [term] at hr
  · refine ⟨rest, later, ?_⟩
    rw [hcall]
    obtain heq | ⟨job, -, ⟨heq, hcurrent⟩ | ⟨heq, -⟩⟩ := checkRole_cases p
    · rw [heq]
      exact h
    · have hsend : p.checkRole.sender = .upTo job.revision [] job.frames := by rw [heq]
      refine h.of_term (by rw [heq]) fun r hr => ?_
      rcases term_upTo hsend with hnone | hsome
      · rw [hnone] at hr
        cases hr
      · rw [hsome] at hr
        rw [hr] at hcurrent
        rcases hcurrent with hcurrent | hcurrent
        · cases hcurrent
        · -- an entry is sent on only in the term it was decided in, which is the current one
          simp only [role] at hcurrent
          split at hcurrent
          next =>
            cases hcurrent
            exact hold
          next => cases hcurrent
    · rw [heq]
      exact h.of_term rfl fun r hr => by simp [term] at hr
  · rw [hcall]
    exact h.hand_step taken

theorem revision_le_call (c : PathCall L) : p.roleRevision ≤ (p.call encode c).roleRevision := by
  rcases call_cases encode p c with hqueues | hcall | hcall | ⟨taken, hcall⟩
  · exact hqueues.revision
  · rw [hcall]
    obtain heq | ⟨job, queue, -, -, heq⟩ := receive_cases p <;> rw [heq]
  · rw [hcall]
    obtain heq | ⟨job, -, ⟨heq, -⟩ | ⟨heq, -⟩⟩ := checkRole_cases p <;> rw [heq]
  · rw [hcall]
    obtain heq | ⟨revision, frame, frames, refused, -, ⟨heq, -⟩ | ⟨refused', heq⟩⟩ := hand_cases p taken <;> rw [heq]

theorem Since.run (h : Since base old held p rest later) (hold : old < p.roleRevision) (encode : Frame → Bytes)
    (calls : List (PathCall L)) :
    ∃ rest' later', Since base old held (p.run encode calls) rest' later' := by
  induction calls generalizing p rest later with
  | nil => exact ⟨rest, later, h⟩
  | cons c calls ih =>
    obtain ⟨rest', later', h'⟩ := h.call hold encode c
    exact ih h' (Nat.lt_of_lt_of_le hold (revision_le_call c))

/-- Once the role is taken or lost, nothing decided in a term before is sent, beside the rest of the one entry whose
term the sender had already checked. -/
theorem old_terms_unsent (p : ForwardPath L) (on : Bool) (hchanged : p.roleOn ≠ on) (calls : List (PathCall L)) :
    ∃ rest later, ((p.setRole on).run encode calls).sent = p.sent ++ rest ++ later ∧
      (rest.map Sent.frame).Sublist p.checked ∧ ∀ e ∈ later, ∀ r, e.revision = some r → p.roleRevision < r := by
  have hmoved : (p.setRole on).roleRevision = p.roleRevision + 1 := by simp [setRole, hchanged]
  have hsent : (p.setRole on).sent = p.sent := by simp [setRole, hchanged]
  have hsender : (p.setRole on).sender = p.sender := by simp [setRole, hchanged]
  have hstart : Since p.sent p.roleRevision p.checked (p.setRole on) [] [] := by
    refine ⟨by simp [hsent], List.nil_sublist _, by simp, .inl ⟨rfl, ?_⟩⟩
    rw [List.map_nil, List.nil_append, checked, checked, hsender]
  obtain ⟨rest, later, h⟩ := hstart.run (by omega) encode calls
  exact ⟨rest, later, h.sent, h.rest_held, h.later_term⟩

/-- A node that is no longer its mesh's primary, with a frame it still had queued. -/
theorem old_terms_unsent_demoted :
    let p := (pair ⟨"fabric1", "n9", "i9"⟩ 0 "mesh1").run (fun _ => []) [.setRole true, .carry 7]
    ∃ rest later, ((p.setRole false).run (fun _ => []) [.receive, .checkRole, .hand true]).sent = p.sent ++ rest ++ later ∧
      (rest.map Sent.frame).Sublist p.checked ∧ ∀ e ∈ later, ∀ r, e.revision = some r → p.roleRevision < r :=
  old_terms_unsent _ false (by decide) _

end Terms

end ForwardPath

end DistributedMesh
