import DistributedMesh.ForwardPathRuns
import Mathlib.Data.List.Induction

namespace DistributedMesh

open Std (ExtTreeMap)
open KeyedMaps

namespace Forwarder

variable {encode : Frame → Bytes} {fw : Forwarder} {cs : List ForwardCall}

/-- The forwarder after calls, each made on it in turn. -/
def afterCalls (encode : Frame → Bytes) (fw : Forwarder) (cs : List ForwardCall) : Forwarder :=
  cs.foldl (fun fw c => (fw.call encode c).1) fw

/-- The frames of the calls, one after another. -/
def lineOf (encode : Frame → Bytes) : Forwarder → List ForwardCall → List Frame
  | _, [] => []
  | fw, c :: cs => (fw.call encode c).2 ++ lineOf encode (fw.call encode c).1 cs

theorem lineOf_append (fw : Forwarder) (xs ys : List ForwardCall) :
    fw.lineOf encode (xs ++ ys) = fw.lineOf encode xs ++ (fw.afterCalls encode xs).lineOf encode ys := by
  induction xs generalizing fw with
  | nil => rfl
  | cons x xs ih =>
    rw [List.cons_append, lineOf, ih, lineOf, List.append_assoc]
    rfl

theorem afterCalls_concat (fw : Forwarder) (cs : List ForwardCall) (c : ForwardCall) :
    fw.afterCalls encode (cs ++ [c]) = ((fw.afterCalls encode cs).call encode c).1 := by
  rw [afterCalls, List.foldl_append]
  rfl

theorem lineOf_concat (fw : Forwarder) (cs : List ForwardCall) (c : ForwardCall) :
    fw.lineOf encode (cs ++ [c]) = fw.lineOf encode cs ++ ((fw.afterCalls encode cs).call encode c).2 := by
  rw [lineOf_append]
  simp [lineOf]

/-- Calls whose frames are taken one call after another are calls whose frames are taken in one line. -/
theorem exchanges_eq (fw : Forwarder) (rx : SnapshotReceiver) (cs : List ForwardCall) :
    Shards.run (exchange encode) (fw, rx) cs = (fw.afterCalls encode cs, rx.takeFrames (fw.lineOf encode cs)) := by
  induction cs using List.reverseRecOn with
  | nil => rfl
  | append_singleton cs c ih =>
    rw [Shards.run_concat, ih, afterCalls_concat, lineOf_concat, SnapshotReceiver.takeFrames_append]
    rfl

theorem exchanges_start (fw : Forwarder) (cs : List ForwardCall) :
    exchanges encode fw cs = (fw.afterCalls encode cs, SnapshotReceiver.empty.takeFrames (fw.lineOf encode cs)) :=
  exchanges_eq fw .empty cs

/-- A receiver refuses no frame of the line as inconsistent. -/
theorem consistent_lineOf {author : Birth} {snapshots : Nat} {ownMesh : String}
    (hn : Numbered (cs.flatMap ForwardCall.offers)) (hok : RunOk encode (start author snapshots ownMesh) cs) :
    ∀ a ∈ SnapshotReceiver.empty.frameAnswers ((start author snapshots ownMesh).lineOf encode cs), a.Consistent := by
  have hos : ∀ c ∈ cs, ∀ o ∈ c.offers, o ∈ cs.flatMap ForwardCall.offers :=
    fun c hc o ho => List.mem_flatMap.mpr ⟨c, hc, ho⟩
  suffices hbefore : ∀ before after, cs = before ++ after →
      ∀ a ∈ SnapshotReceiver.empty.frameAnswers ((start author snapshots ownMesh).lineOf encode before), a.Consistent by
    exact hbefore cs [] (by simp)
  intro before
  induction before using List.reverseRecOn with
  | nil => intro after _ a ha; simp [lineOf, SnapshotReceiver.frameAnswers] at ha
  | append_singleton before c ih =>
    intro after he a ha
    have he' : cs = before ++ c :: after := by rw [he]; simp
    rw [lineOf_concat, SnapshotReceiver.frameAnswers_append] at ha
    rcases List.mem_append.mp ha with ha | ha
    · exact ih (c :: after) he' a ha
    · have hrun : RunOk encode (start author snapshots ownMesh) before :=
        fun b x rest hb => hok b x (rest ++ c :: after) (by rw [he', hb]; simp)
      obtain ⟨hagreed, hknown⟩ := Agreed.run hn
        (fun x hx => hos x (by rw [he']; exact List.mem_append_left _ hx)) hrun
      have hcall := hok before c after he'
      rw [exchanges_start] at hagreed hknown hcall
      have hd := hagreed.call hknown hn (hos c (by rw [he']; simp)) hcall
      exact hd.consistent a ha

theorem sameSources_lineOf {author : Birth} {snapshots : Nat} {ownMesh : String}
    (hn : Numbered (cs.flatMap ForwardCall.offers)) (hok : RunOk encode (start author snapshots ownMesh) cs) :
    SameSources ((start author snapshots ownMesh).afterCalls encode cs)
      (SnapshotReceiver.empty.takeFrames ((start author snapshots ownMesh).lineOf encode cs)) := by
  obtain ⟨hagreed, -⟩ := Agreed.run hn (fun c hc o ho => List.mem_flatMap.mpr ⟨c, hc, ho⟩) hok
  rw [exchanges_start] at hagreed
  exact hagreed.same

end Forwarder

namespace ForwardPath

variable {L : Type} {encode : Frame → Bytes} {p : ForwardPath L} {fw : Forwarder} {cs : List ForwardCall}

/-- The decisions a call makes of the forwarder, which decides nothing without the role. -/
def forwardCall (p : ForwardPath L) : PathCall L → List ForwardCall
  | .source me offer now => if p.roleOn then [.source me offer now] else []
  | .fulls me held now => if p.roleOn then [.fulls me held now] else []
  | .replay me _ now => if p.roleOn then [.replay me now] else []
  | .publish me held own now =>
    if p.roleOn then
      match p.due with
      | none => []
      | some true => [.fulls me held now]
      | some false => [.source me own now]
    else []
  | _ => []

def forwardCalls (encode : Frame → Bytes) (p : ForwardPath L) : List (PathCall L) → List ForwardCall
  | [] => []
  | c :: calls => p.forwardCall c ++ (p.call encode c).forwardCalls encode calls

/-- The entries that are still to be checked. -/
def unchecked (p : ForwardPath L) : List (Job L) :=
  match p.sender with
  | .received job => job :: p.queue
  | _ => p.queue

/-- The frames of the sources in the line. -/
def sources (p : ForwardPath L) : List Frame := p.line.filterMap ChannelFrame.source

/-- The line holds what the decisions put into it. -/
structure Carries (encode : Frame → Bytes) (fw : Forwarder) (cs : List ForwardCall) (p : ForwardPath L) : Prop where
  forwarder : p.forwarder = fw.afterCalls encode cs
  sources : p.sources = fw.lineOf encode cs
  alive : p.alive = true
  current : ∀ job ∈ p.unchecked, job.revision = none ∨ p.role = job.revision
  unrefused : ∀ revision frames refused, p.sender = .sending revision frames refused → refused = []
  first : p.roleOn = false → cs = []

theorem enqueue_alive (halive : p.alive = true) (job : Job L) : p.enqueue job = { p with queue := p.queue ++ [job] } := by
  rw [enqueue, if_pos halive]

theorem mem_unchecked_append {queue : List (Job L)} {job x : Job L} (h : x ∈ { p with queue := queue ++ [job] }.unchecked) :
    x ∈ { p with queue := queue }.unchecked ∨ x = job := by
  simp only [unchecked] at h ⊢
  split at h
  next => simpa [or_assoc] using h
  next => simpa using h

theorem sources_append {queue : List (Job L)} (job : Job L) :
    { p with queue := queue ++ [job] }.sources = { p with queue := queue }.sources ++ job.frames.filterMap ChannelFrame.source := by
  simp [sources, line, List.flatMap_append, List.filterMap_append]

/-- An entry is queued behind the others: the frames of a decision, or none of a source. -/
theorem Carries.enqueue (h : Carries encode fw cs p) {fw' : Forwarder} {cs' : List ForwardCall} {job : Job L}
    (hforwarder : fw' = fw.afterCalls encode cs')
    (hline : fw.lineOf encode cs' = fw.lineOf encode cs ++ job.frames.filterMap ChannelFrame.source)
    (hrevision : job.revision = p.role) (hfirst : p.roleOn = false → cs' = []) :
    Carries encode fw cs' ({ p with forwarder := fw' }.enqueue job) := by
  have halive : ({ p with forwarder := fw' } : ForwardPath L).alive = true := h.alive
  rw [enqueue_alive halive]
  refine ⟨hforwarder, ?_, h.alive, fun x hx => ?_, h.unrefused, hfirst⟩
  · rw [sources_append, hline, ← h.sources]
    rfl
  · rcases mem_unchecked_append hx with hx | rfl
    · exact h.current x hx
    · exact .inr hrevision.symm

theorem filterMap_source_topology (frames : List Frame) :
    (frames.map (ChannelFrame.topology (L := L))).filterMap ChannelFrame.source = frames := by
  rw [List.filterMap_map]
  have hsome : (ChannelFrame.source ∘ ChannelFrame.topology (L := L)) = some := rfl
  rw [hsome, List.filterMap_some]

theorem filterMap_source_other (frames : List L) : (frames.map ChannelFrame.other).filterMap ChannelFrame.source = [] := by
  rw [List.filterMap_map]
  have hnone : (ChannelFrame.source ∘ ChannelFrame.other (L := L)) = fun _ => none := rfl
  rw [hnone, List.filterMap_eq_nil_iff]
  exact fun _ _ => rfl

theorem role_on (h : p.roleOn = true) : p.role = some p.roleRevision := by simp [role, h]

theorem role_off (h : p.roleOn = false) : p.role = none := by simp [role, h]

/-- A decision in the role: its frames are queued, where it has any. -/
theorem Carries.decided (h : Carries encode fw cs p) (hrole : p.roleOn = true) (c : ForwardCall) (job : Job L)
    (hrevision : job.revision = p.role)
    (hframes : job.frames.filterMap ChannelFrame.source = (p.forwarder.call encode c).2) :
    Carries encode fw (cs ++ [c]) ({ p with forwarder := (p.forwarder.call encode c).1 }.enqueue job) := by
  refine h.enqueue ?_ ?_ hrevision fun hoff => ?_
  · rw [Forwarder.afterCalls_concat, ← h.forwarder]
  · rw [Forwarder.lineOf_concat, ← h.forwarder, hframes]
  · rw [hrole] at hoff
    cases hoff

theorem Carries.silent (h : Carries encode fw cs p) (hrole : p.roleOn = true) (c : ForwardCall)
    (hframes : (p.forwarder.call encode c).2 = []) :
    Carries encode fw (cs ++ [c]) { p with forwarder := (p.forwarder.call encode c).1 } := by
  refine ⟨?_, ?_, h.alive, h.current, h.unrefused, fun hoff => ?_⟩
  · rw [Forwarder.afterCalls_concat, ← h.forwarder]
  · rw [Forwarder.lineOf_concat, ← h.forwarder, hframes, List.append_nil]
    exact h.sources
  · have hoff : p.roleOn = false := hoff
    rw [hrole] at hoff
    cases hoff

theorem Carries.source (h : Carries encode fw cs p) (hrole : p.roleOn = true) (me : String) (offer : Offer) (now : Nat) :
    Carries encode fw (cs ++ [.source me offer now]) (p.source encode me offer now) := by
  have hcall : p.forwarder.call encode (.source me offer now) =
      ((p.forwarder.source encode me offer now).1, (p.forwarder.source encode me offer now).2.frames) := rfl
  simp only [ForwardPath.source, role_on hrole]
  cases hout : (p.forwarder.source encode me offer now).2 with
  | nothing why =>
    have hsilent := h.silent hrole (.source me offer now) (by rw [hcall, hout]; rfl)
    rw [hcall] at hsilent
    exact hsilent
  | full frames =>
    have hdecided := h.decided hrole (.source me offer now) (.forwarded p.roleRevision (.full frames))
      (role_on hrole).symm (by rw [hcall, hout]; exact filterMap_source_topology frames)
    rw [hcall] at hdecided
    exact hdecided
  | delta frame =>
    have hdecided := h.decided hrole (.source me offer now) (.forwarded p.roleRevision (.delta frame))
      (role_on hrole).symm (by rw [hcall, hout]; exact filterMap_source_topology [frame])
    rw [hcall] at hdecided
    exact hdecided

theorem Carries.fulls (h : Carries encode fw cs p) (hrole : p.roleOn = true) (me : String) (held : List Offer) (now : Nat) :
    Carries encode fw (cs ++ [.fulls me held now]) (p.fulls encode me held now) := by
  simp only [ForwardPath.fulls, role_on hrole]
  exact h.decided hrole (.fulls me held now) _ (role_on hrole).symm (filterMap_source_topology _)

theorem Carries.replay (h : Carries encode fw cs p) (hrole : p.roleOn = true) (me : String) (frames : List L) (now : Nat) :
    Carries encode fw (cs ++ [.replay me now]) (p.replay encode me frames now) := by
  have hall : (frames.map ChannelFrame.other ++ (p.forwarder.replay encode me now).2.map ChannelFrame.topology).filterMap
      ChannelFrame.source = (p.forwarder.replay encode me now).2 := by
    rw [List.filterMap_append, filterMap_source_other, filterMap_source_topology, List.nil_append]
  simp only [ForwardPath.replay, role_on hrole]
  split
  next hempty =>
    refine h.silent hrole (.replay me now) ?_
    rw [List.isEmpty_iff] at hempty
    rw [hempty] at hall
    exact hall.symm
  next => exact h.decided hrole (.replay me now) _ (role_on hrole).symm hall

/-- A call of a run in which the role is not lost, the channel takes every frame and the sender goes on. -/
def Steady : PathCall L → Prop
  | .setRole on => on = true
  | .hand taken => taken = true
  | .senderGone => False
  | _ => True

theorem Carries.receive (h : Carries encode fw cs p) : Carries encode fw cs p.receive := by
  obtain heq | ⟨job, queue, hsender, hqueue, heq⟩ := receive_cases p
  · rw [heq]
    exact h
  · rw [heq]
    refine ⟨h.forwarder, ?_, h.alive, fun x hx => h.current x ?_, fun _ _ _ hs => ?_, h.first⟩
    · rw [← h.sources]
      simp [ForwardPath.sources, line, hsender, hqueue]
    · simpa [unchecked, hsender, hqueue] using hx
    · cases hs

theorem Carries.checkRole (h : Carries encode fw cs p) : Carries encode fw cs p.checkRole := by
  obtain heq | ⟨job, hsender, ⟨heq, -⟩ | ⟨heq, hnone, hold⟩⟩ := checkRole_cases p
  · rw [heq]
    exact h
  · rw [heq]
    refine ⟨h.forwarder, ?_, h.alive, fun x hx => h.current x ?_, fun revision frames refused hs => ?_, h.first⟩
    · rw [← h.sources]
      simp [ForwardPath.sources, line, hsender]
    · have hqueue : x ∈ p.queue := by
        cases hframes : job.frames <;> simpa [unchecked, hframes, Sender.upTo] using hx
      simp [unchecked, hsender, hqueue]
    · cases hframes : job.frames with
      | nil =>
        simp only [hframes, Sender.upTo] at hs
        cases hs
      | cons frame rest =>
        simp only [hframes, Sender.upTo] at hs
        cases hs
        rfl
  · -- in the term it was decided in an entry is never dropped
    have hcurrent := h.current job (by simp [unchecked, hsender])
    rcases hcurrent with hcurrent | hcurrent
    · exact absurd hcurrent hnone
    · exact absurd hcurrent hold

theorem hand_taken {revision : Option Nat} {frame : ChannelFrame L} {frames : List (ChannelFrame L)} (halive : p.alive = true)
    (hsender : p.sender = .sending revision (frame :: frames) []) :
    p.hand true = { p with sent := p.sent ++ [⟨revision, frame, true⟩], sender := .upTo revision [] frames } := by
  simp only [hand, halive, hsender]
  cases frame.mesh <;> simp

theorem Carries.hand (h : Carries encode fw cs p) : Carries encode fw cs (p.hand true) := by
  obtain heq | ⟨revision, frame, frames, refused, hsender, -⟩ := hand_cases p true
  · rw [heq]
    exact h
  · have hrefused := h.unrefused revision (frame :: frames) refused hsender
    subst hrefused
    rw [hand_taken h.alive hsender]
    refine ⟨h.forwarder, ?_, h.alive, fun x hx => h.current x ?_, fun revision' frames' refused' hs => ?_, h.first⟩
    · rw [← h.sources]
      simp [ForwardPath.sources, line, hsender]
    · cases frames <;> simpa [unchecked, hsender, Sender.upTo] using hx
    · cases frames with
      | nil => cases hs
      | cons next rest =>
        cases hs
        rfl

/-- Taking the role for the first time clears nothing. -/
theorem Carries.takeRole (h : Carries encode fw cs p) (hpublished : fw.published = ∅) :
    Carries encode fw cs (p.setRole true) := by
  simp only [setRole]
  split
  next => exact h
  next hoff =>
    have hoff : p.roleOn = false := by simpa using hoff
    have hfirst := h.first hoff
    subst hfirst
    have hfw : p.forwarder = fw := h.forwarder
    refine ⟨?_, h.sources, h.alive, fun x hx => ?_, h.unrefused, fun _ => rfl⟩
    · change { p.forwarder with published := ∅ } = fw
      rw [hfw, ← hpublished]
    · have hcurrent := h.current x hx
      rw [role_off hoff] at hcurrent
      left
      rcases hcurrent with hcurrent | hcurrent
      · exact hcurrent
      · exact hcurrent.symm

/-- A flag that changes leaves the line. -/
theorem Carries.flags (h : Carries encode fw cs p) (owesFull : Bool) (due : Option Bool) :
    Carries encode fw cs { p with owesFull := owesFull, due := due } :=
  ⟨h.forwarder, h.sources, h.alive, h.current, h.unrefused, h.first⟩

/-- A call that decides nothing. -/
theorem Carries.undecided (h : Carries encode fw cs p) : Carries encode fw (cs ++ []) p := by
  rw [List.append_nil]
  exact h

theorem Carries.call (h : Carries encode fw cs p) (hpublished : fw.published = ∅) {c : PathCall L} (hc : Steady c) :
    Carries encode fw (cs ++ p.forwardCall c) (p.call encode c) := by
  cases hrole : p.roleOn with
  | false =>
    have hnone : p.forwardCall c = [] := by cases c <;> simp [forwardCall, hrole]
    rw [hnone, List.append_nil]
    cases c with
    | source me offer now => simpa [ForwardPath.call, ForwardPath.source, role_off hrole] using h
    | fulls me held now => simpa [ForwardPath.call, ForwardPath.fulls, role_off hrole] using h
    | setRole on =>
      have hon : on = true := hc
      subst hon
      exact h.takeRole hpublished
    | carry frame => simpa [ForwardPath.call, ForwardPath.carry, role_off hrole] using h
    | replay me frames now =>
      simp only [ForwardPath.call, ForwardPath.replay, role_off hrole]
      split
      next => exact h
      next =>
        refine h.enqueue h.forwarder ?_ (role_off hrole).symm h.first
        rw [Job.frames, filterMap_source_other, List.append_nil]
    | takeDue => exact h.flags _ _
    | publish me held own now =>
      simp only [ForwardPath.call, ForwardPath.publish]
      split
      next => exact h
      next => simpa [ForwardPath.fulls, role, hrole] using h.flags p.owesFull none
      next => simpa [ForwardPath.source, role, hrole] using h.flags p.owesFull none
    | receive => exact h.receive
    | checkRole => exact h.checkRole
    | hand taken =>
      have htaken : taken = true := hc
      subst htaken
      exact h.hand
    | senderGone => exact absurd hc id
  | true =>
    cases c with
    | source me offer now =>
      rw [forwardCall, if_pos hrole]
      exact h.source hrole me offer now
    | fulls me held now =>
      rw [forwardCall, if_pos hrole]
      exact h.fulls hrole me held now
    | setRole on =>
      have hon : on = true := hc
      subst hon
      exact (h.takeRole hpublished).undecided
    | carry frame =>
      refine Carries.undecided ?_
      simp only [ForwardPath.call, ForwardPath.carry, role_on hrole]
      refine h.enqueue h.forwarder ?_ (role_on hrole).symm h.first
      simp [Job.frames, ChannelFrame.source]
    | replay me frames now =>
      rw [forwardCall, if_pos hrole]
      exact h.replay hrole me frames now
    | takeDue => exact (h.flags _ _).undecided
    | publish me held own now =>
      rw [forwardCall, if_pos hrole]
      have hflags := h.flags p.owesFull none
      simp only [ForwardPath.call, ForwardPath.publish]
      cases hdue : p.due with
      | none => simpa using h
      | some due =>
        cases due with
        | true => exact hflags.fulls hrole me held now
        | false => exact hflags.source hrole me own now
    | receive => exact h.receive.undecided
    | checkRole => exact h.checkRole.undecided
    | hand taken =>
      have htaken : taken = true := hc
      subst htaken
      exact h.hand.undecided
    | senderGone => exact absurd hc id

theorem Carries.run (h : Carries encode fw cs p) (hpublished : fw.published = ∅) {calls : List (PathCall L)}
    (hsteady : ∀ c ∈ calls, Steady c) : Carries encode fw (cs ++ p.forwardCalls encode calls) (p.run encode calls) := by
  induction calls generalizing p cs with
  | nil => exact h.undecided
  | cons c calls ih =>
    have hstep := h.call hpublished (hsteady c List.mem_cons_self)
    have hrest := ih hstep fun c hc => hsteady c (List.mem_cons_of_mem _ hc)
    rw [List.append_assoc] at hrest
    exact hrest

/-- The frames of sources that were put on the channel. -/
def taken (p : ForwardPath L) : List Frame := p.sent.filterMap fun e => e.frame.source

theorem sources_eq (p : ForwardPath L) :
    p.sources = p.taken ++ (p.sender.frames ++ p.queue.flatMap Job.frames).filterMap ChannelFrame.source := by
  rw [sources, line, List.filterMap_append, List.filterMap_map]
  rfl

theorem carries_run {author : Birth} {snapshots : Nat} {ownMesh : String} {calls : List (PathCall L)}
    (hsteady : ∀ c ∈ calls, Steady c) :
    Carries encode (.start author snapshots ownMesh) ((pair author snapshots ownMesh).forwardCalls encode calls)
      ((pair author snapshots ownMesh).run encode calls) := by
  have hstart : Carries encode (.start author snapshots ownMesh) [] (pair author snapshots ownMesh : ForwardPath L) := by
    refine ⟨rfl, rfl, rfl, fun job hjob => ?_, fun _ _ _ hs => ?_, fun _ => rfl⟩
    · simp [unchecked, pair] at hjob
    · simp [pair] at hs
  exact hstart.run rfl hsteady

theorem Carries.drained (h : Carries encode fw cs p) (hqueue : p.queue = []) (hsender : p.sender = .waiting) :
    p.taken = fw.lineOf encode cs := by
  have hsources := h.sources
  rw [sources_eq, hqueue, hsender] at hsources
  simpa using hsources

/-- The queue between the forwarder and the channel cannot be told from none: in every run of a path that takes its
role once and whose channel takes every frame, what was put on the channel is a beginning of the frames of the
decisions, and once nothing is queued a member that takes it stands where it would if each decision had been handed
to it at once. -/
theorem drained_path_exchanges {author : Birth} {snapshots : Nat} {ownMesh : String} {calls : List (PathCall L)}
    (hsteady : ∀ c ∈ calls, Steady c) :
    let p := (pair author snapshots ownMesh).run encode calls
    let decided := (pair author snapshots ownMesh).forwardCalls encode calls
    p.taken <+: (Forwarder.start author snapshots ownMesh).lineOf encode decided ∧
      (p.queue = [] → p.sender = .waiting → (p.forwarder, SnapshotReceiver.empty.takeFrames p.taken) =
        Forwarder.exchanges encode (.start author snapshots ownMesh) decided) := by
  intro p decided
  have hcarries : Carries encode (.start author snapshots ownMesh) decided p := carries_run hsteady
  refine ⟨?_, fun hqueue hsender => ?_⟩
  · rw [← hcarries.sources, sources_eq]
    exact List.prefix_append _ _
  · rw [Forwarder.exchanges_start, hcarries.forwarder, hcarries.drained hqueue hsender]

/-- In every such run whose decisions publish only what their frames can carry, a member finds no frame of the channel
inconsistent, and once nothing is queued it holds of every source what the forwarder published. -/
theorem drained_path_agrees {author : Birth} {snapshots : Nat} {ownMesh : String} {calls : List (PathCall L)}
    (hsteady : ∀ c ∈ calls, Steady c)
    (hn : Numbered (((pair author snapshots ownMesh).forwardCalls encode calls).flatMap ForwardCall.offers))
    (hok : Forwarder.RunOk encode (.start author snapshots ownMesh) ((pair author snapshots ownMesh).forwardCalls encode calls)) :
    let p := (pair author snapshots ownMesh).run encode calls
    (∀ a ∈ SnapshotReceiver.empty.frameAnswers p.taken, a.Consistent) ∧
      (p.queue = [] → p.sender = .waiting →
        Forwarder.SameSources p.forwarder (SnapshotReceiver.empty.takeFrames p.taken)) := by
  intro p
  have hcarries : Carries encode (.start author snapshots ownMesh) _ p := carries_run hsteady
  have hconsistent := Forwarder.consistent_lineOf hn hok
  have hsame := Forwarder.sameSources_lineOf hn hok
  refine ⟨fun a ha => hconsistent a ?_, fun hqueue hsender => ?_⟩
  · rw [← hcarries.sources, sources_eq, SnapshotReceiver.frameAnswers_append]
    exact List.mem_append_left _ ha
  · rw [hcarries.drained hqueue hsender, hcarries.forwarder]
    exact hsame

/-- A primary that publishes one source, and whose sender puts it on the channel. -/
def publishing : List (PathCall Unit) :=
  [.setRole true, .source "n9" (Forwarder.offerOf 1 [Full.opOn "node.stop"] []) 1, .receive, .checkRole, .hand true]

theorem steady_publishing : ∀ c ∈ publishing, Steady c := by
  intro c hc
  simp only [publishing, List.mem_cons, List.not_mem_nil, or_false] at hc
  rcases hc with rfl | rfl | rfl | rfl | rfl <;> simp [Steady]

theorem drained_path_exchanges_first :
    let encode : Frame → Bytes := fun _ => List.replicate 64 0
    let p : ForwardPath Unit := (pair ⟨"fabric1", "n9", "i9"⟩ 0 "mesh1").run encode publishing
    let decided := (pair ⟨"fabric1", "n9", "i9"⟩ 0 "mesh1").forwardCalls encode publishing
    p.taken <+: (Forwarder.start ⟨"fabric1", "n9", "i9"⟩ 0 "mesh1").lineOf encode decided ∧
      (p.queue = [] → p.sender = .waiting → (p.forwarder, SnapshotReceiver.empty.takeFrames p.taken) =
        Forwarder.exchanges encode (.start ⟨"fabric1", "n9", "i9"⟩ 0 "mesh1") decided) :=
  drained_path_exchanges steady_publishing

theorem drained_path_agrees_first :
    let p : ForwardPath Unit := (pair ⟨"fabric1", "n9", "i9"⟩ 0 "mesh1").run (fun _ => List.replicate 64 0) publishing
    (∀ a ∈ SnapshotReceiver.empty.frameAnswers p.taken, a.Consistent) ∧
      (p.queue = [] → p.sender = .waiting →
        Forwarder.SameSources p.forwarder (SnapshotReceiver.empty.takeFrames p.taken)) := by
  intro p
  refine drained_path_agrees steady_publishing ?_ ?_
  · intro x hx y hy _ _ _
    have hoffers : ∀ o ∈ ((pair ⟨"fabric1", "n9", "i9"⟩ 0 "mesh1" : ForwardPath Unit).forwardCalls
        (fun _ => List.replicate 64 0) publishing).flatMap ForwardCall.offers,
        o = Forwarder.offerOf 1 [Full.opOn "node.stop"] [] :=
      fun o ho => List.mem_singleton.mp ho
    rw [hoffers x hx, hoffers y hy]
    exact Full.sameTopology_refl _
  · intro before c after he
    have hcalls : [Forwarder.sourceCall (Forwarder.offerOf 1 [Full.opOn "node.stop"] [])] = before ++ c :: after := he
    cases before with
    | cons x before => simp at hcalls
    | nil =>
      obtain ⟨rfl, -⟩ := List.cons.inj hcalls
      refine fun _ => ⟨fun _ => Forwarder.sendable_short (by decide), fun basis hb => ?_⟩
      have hnone : Forwarder.forwarder.published["mesh2"]? = none := ExtTreeMap.getElem?_empty
      have hb : Forwarder.forwarder.published["mesh2"]? = some basis := hb
      rw [hnone] at hb
      cases hb

section Lost

/-- A call that loses a frame of a source: the channel refuses it, or it is decided and no task sends it. -/
def Loses (encode : Frame → Bytes) (p : ForwardPath L) : PathCall L → Prop
  | .hand taken => taken = false ∧ p.alive = true ∧ ∃ revision frame frames refused mesh,
      p.sender = .sending revision (frame :: frames) refused ∧ frame.mesh = some mesh ∧ mesh ∉ refused
  | c => p.alive = false ∧ ∃ decided ∈ p.forwardCall c, (p.forwarder.call encode decided).2 ≠ []

/-- In the role a full of every source is owed. -/
def Owed (p : ForwardPath L) : Prop := p.roleOn = true → p.owesFull = true

theorem owed_enqueue (p : ForwardPath L) (job : Job L) (h : p.Owed) : (p.enqueue job).Owed := by
  simp only [enqueue]
  split
  next => exact h
  next =>
    intro hrole
    simp [h hrole]

theorem owed_source (p : ForwardPath L) (me : String) (offer : Offer) (now : Nat) (h : p.Owed) :
    (p.source encode me offer now).Owed := by
  simp only [source]
  split
  next => exact h
  next =>
    split
    next => exact h
    next => exact owed_enqueue { p with forwarder := _ } _ h

theorem owed_fulls (p : ForwardPath L) (me : String) (held : List Offer) (now : Nat) (h : p.Owed) :
    (p.fulls encode me held now).Owed := by
  simp only [fulls]
  split
  next => exact h
  next => exact owed_enqueue { p with forwarder := _ } _ h

theorem owed_hand (p : ForwardPath L) (taken : Bool) (h : p.Owed) : (p.hand taken).Owed := by
  obtain heq | ⟨revision, frame, frames, refused, -, ⟨heq, -⟩ | ⟨refused', heq⟩⟩ := hand_cases p taken
  · rw [heq]
    exact h
  · rw [heq]
    exact h
  · rw [heq]
    intro hrole
    simp [h hrole]

/-- Only a publication takes what is owed: a role that is lost is taken again with the fulls owed. -/
theorem owed_call (h : p.Owed) {c : PathCall L} (hc : c ≠ .takeDue) : (p.call encode c).Owed := by
  cases c with
  | source me offer now => exact owed_source p me offer now h
  | fulls me held now => exact owed_fulls p me held now h
  | setRole on =>
    simp only [call, setRole]
    split
    next => exact h
    next => exact id
  | carry frame =>
    simp only [call, carry]
    split
    next => exact h
    next => exact owed_enqueue p _ h
  | replay me frames now =>
    simp only [call, replay]
    split
    next =>
      split
      next => exact h
      next => exact owed_enqueue p _ h
    next =>
      split
      next => exact h
      next => exact owed_enqueue { p with forwarder := _ } _ h
  | takeDue => exact absurd rfl hc
  | publish me held own now =>
    simp only [call, publish]
    split
    next => exact h
    next => exact owed_fulls { p with due := none } me held now h
    next => exact owed_source { p with due := none } me own now h
  | receive =>
    obtain heq | ⟨job, queue, -, -, heq⟩ := receive_cases p <;>
    · rw [call, heq]
      exact h
  | checkRole =>
    obtain heq | ⟨job, -, ⟨heq, -⟩ | ⟨heq, -⟩⟩ := checkRole_cases p <;>
    · rw [call, heq]
      exact h
  | hand taken => exact owed_hand p taken h
  | senderGone => exact h

theorem owed_run (encode : Frame → Bytes) (h : p.Owed) {calls : List (PathCall L)} (hcalls : ∀ c ∈ calls, c ≠ .takeDue) :
    (p.run encode calls).Owed := by
  induction calls generalizing p with
  | nil => exact h
  | cons c calls ih =>
    exact ih (owed_call h (hcalls c List.mem_cons_self)) fun c hc => hcalls c (List.mem_cons_of_mem _ hc)

/-- A frame of a source that no task sends is owed. -/
theorem owed_unsent {job : Job L} (hgone : p.alive = false) (hframes : ∃ frame, .topology frame ∈ job.frames) :
    (p.enqueue job).Owed := by
  obtain ⟨frame, hframe⟩ := hframes
  have hany : (job.frames.any fun frame => frame.mesh.isSome) = true := by
    refine List.any_eq_true.mpr ⟨.topology frame, hframe, ?_⟩
    cases frame <;> rfl
  intro _
  simp [enqueue, hgone, hany]

theorem exists_topology {frames : List Frame} (h : frames ≠ []) :
    ∃ frame, ChannelFrame.topology (L := L) frame ∈ frames.map ChannelFrame.topology := by
  obtain ⟨frame, hframe⟩ := List.exists_mem_of_ne_nil frames h
  exact ⟨frame, List.mem_map_of_mem hframe⟩

theorem owed_source_unsent (hgone : p.alive = false) (hrole : p.roleOn = true) {me : String} {offer : Offer} {now : Nat}
    (hframes : (p.forwarder.source encode me offer now).2.frames ≠ []) : (p.source encode me offer now).Owed := by
  simp only [source, role_on hrole]
  split
  next hnothing =>
    rw [hnothing] at hframes
    exact absurd rfl hframes
  next => exact owed_unsent hgone (exists_topology hframes)

theorem owed_fulls_unsent (hgone : p.alive = false) (hrole : p.roleOn = true) {me : String} {held : List Offer} {now : Nat}
    (hframes : (Forwarder.fulls encode me now p.forwarder held).2 ≠ []) : (p.fulls encode me held now).Owed := by
  simp only [fulls, role_on hrole]
  exact owed_unsent hgone (exists_topology hframes)

theorem owed_replay_unsent (hgone : p.alive = false) (hrole : p.roleOn = true) {me : String} {frames : List L} {now : Nat}
    (hframes : (p.forwarder.replay encode me now).2 ≠ []) : (p.replay encode me frames now).Owed := by
  obtain ⟨frame, hframe⟩ := exists_topology (L := L) hframes
  simp only [replay, role_on hrole]
  split
  next hempty =>
    rw [List.isEmpty_iff, List.append_eq_nil_iff] at hempty
    rw [hempty.2] at hframe
    cases hframe
  next => exact owed_unsent hgone ⟨frame, List.mem_append_right _ hframe⟩

theorem Loses.owed {c : PathCall L} (h : p.Loses encode c) : (p.call encode c).Owed := by
  cases c with
  | hand taken =>
    obtain ⟨rfl, halive, revision, frame, frames, refused, mesh, hsender, hmesh, hmem⟩ := h
    intro _
    simp [call, hand, halive, hsender, hmesh, hmem]
  | source me offer now =>
    obtain ⟨hgone, decided, hd, hframes⟩ := h
    simp only [forwardCall] at hd
    split at hd
    next hrole =>
      rw [List.mem_singleton.mp hd] at hframes
      exact owed_source_unsent hgone hrole hframes
    next => cases hd
  | fulls me held now =>
    obtain ⟨hgone, decided, hd, hframes⟩ := h
    simp only [forwardCall] at hd
    split at hd
    next hrole =>
      rw [List.mem_singleton.mp hd] at hframes
      exact owed_fulls_unsent hgone hrole hframes
    next => cases hd
  | replay me frames now =>
    obtain ⟨hgone, decided, hd, hframes⟩ := h
    simp only [forwardCall] at hd
    split at hd
    next hrole =>
      rw [List.mem_singleton.mp hd] at hframes
      exact owed_replay_unsent hgone hrole hframes
    next => cases hd
  | publish me held own now =>
    obtain ⟨hgone, decided, hd, hframes⟩ := h
    simp only [forwardCall] at hd
    split at hd
    next hrole =>
      cases hdue : p.due with
      | none =>
        rw [hdue] at hd
        cases hd
      | some due =>
        rw [hdue] at hd
        cases due with
        | true =>
          rw [List.mem_singleton.mp hd] at hframes
          rw [call, publish, hdue]
          exact owed_fulls_unsent (p := { p with due := none }) hgone hrole hframes
        | false =>
          rw [List.mem_singleton.mp hd] at hframes
          rw [call, publish, hdue]
          exact owed_source_unsent (p := { p with due := none }) hgone hrole hframes
    next => cases hd
  | setRole on | carry frame | takeDue | receive | checkRole | senderGone =>
    obtain ⟨-, decided, hd, -⟩ := h
    cases hd

/-- A call that is no part of a publication. -/
def Between : PathCall L → Prop
  | .takeDue => False
  | .publish _ _ _ _ => False
  | _ => True

theorem due_enqueue (p : ForwardPath L) (job : Job L) : (p.enqueue job).due = p.due := by
  simp only [enqueue]
  split <;> rfl

theorem due_call (p : ForwardPath L) {c : PathCall L} (hc : Between c) : (p.call encode c).due = p.due := by
  cases c with
  | source me offer now =>
    simp only [call, source]
    split
    next => rfl
    next =>
      split
      next => rfl
      next => exact due_enqueue { p with forwarder := _ } _
  | fulls me held now =>
    simp only [call, fulls]
    split
    next => rfl
    next => exact due_enqueue { p with forwarder := _ } _
  | setRole on =>
    simp only [call, setRole]
    split <;> rfl
  | carry frame =>
    simp only [call, carry]
    split
    next => rfl
    next => exact due_enqueue p _
  | replay me frames now =>
    simp only [call, replay]
    split
    next =>
      split
      next => rfl
      next => exact due_enqueue p _
    next =>
      split
      next => rfl
      next => exact due_enqueue { p with forwarder := _ } _
  | takeDue => exact absurd hc id
  | publish me held own now => exact absurd hc id
  | receive => obtain heq | ⟨job, queue, -, -, heq⟩ := receive_cases p <;> rw [call, heq]
  | checkRole => obtain heq | ⟨job, -, ⟨heq, -⟩ | ⟨heq, -⟩⟩ := checkRole_cases p <;> rw [call, heq]
  | hand taken =>
    obtain heq | ⟨revision, frame, frames, refused, -, ⟨heq, -⟩ | ⟨refused', heq⟩⟩ := hand_cases p taken <;> rw [call, heq]
  | senderGone => rfl

/-- What a publication took is what it acts on, whatever happens in between. -/
theorem due_run {calls : List (PathCall L)} (hcalls : ∀ c ∈ calls, Between c) : (p.run encode calls).due = p.due := by
  induction calls generalizing p with
  | nil => rfl
  | cons c calls ih =>
    have hrest := ih (p := p.call encode c) fun c hc => hcalls c (List.mem_cons_of_mem _ hc)
    exact hrest.trans (due_call p (hcalls c List.mem_cons_self))

/-- Once a frame of a source was lost, the next publication this node makes in the role puts the full of every source
into the mesh, whatever the path did in between. -/
theorem lost_frame_owes_fulls {c : PathCall L} (hlost : p.Loses encode c) {before after : List (PathCall L)}
    (hbefore : ∀ c ∈ before, c ≠ .takeDue)
    (hafter : ∀ c ∈ after, Between c)
    (hrole : ((p.call encode c).run encode before).roleOn = true) (me : String) (held : List Offer) (own : Offer) (now : Nat) :
    let q := (((p.call encode c).run encode before).call encode .takeDue).run encode after
    q.call encode (.publish me held own now) = { q with due := none }.call encode (.fulls me held now) := by
  intro q
  have howed := owed_run encode hlost.owed hbefore hrole
  have hdue : q.due = some true := by
    rw [due_run hafter, call, takeDue, howed]
  simp only [call, publish, hdue]

/-- A path whose sender holds a chunk the channel refuses, while its node loses the role and takes it again. -/
theorem lost_frame_owes_fulls_retaken :
    let encode : Frame → Bytes := fun _ => []
    let frame := Frame.topologyFull ⟨"fabric1", "n9", "i9"⟩ 1 (SnapshotReceiver.emptyChunk SnapshotReceiver.alice 1 0)
    let p : ForwardPath Unit := { pair ⟨"fabric1", "n9", "i9"⟩ 0 "mesh1" with
      roleOn := true, roleRevision := 1, sender := .sending (some 1) [.topology frame] [] }
    let q := (((p.call encode (.hand false)).run encode [.setRole false, .setRole true]).call encode .takeDue).run encode
      [.receive]
    q.call encode (.publish "n9" [] (Forwarder.offerOf 1 [] []) 2) =
      { q with due := none }.call encode (.fulls "n9" [] 2) := by
  intro encode frame p q
  have hlost : p.Loses encode (.hand false) := by
    refine ⟨rfl, rfl, some 1, .topology frame, [], [], _, rfl, rfl, ?_⟩
    simp
  refine lost_frame_owes_fulls hlost (fun c hc => ?_) (fun c hc => ?_) rfl "n9" [] _ 2
  · simp only [List.mem_cons, List.not_mem_nil, or_false] at hc
    rcases hc with rfl | rfl <;> simp
  · rw [List.mem_singleton.mp hc]
    trivial

end Lost

end ForwardPath

end DistributedMesh
