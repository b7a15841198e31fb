import DistributedMesh.DriveReads

namespace DistributedMesh.DriveReads

open GuardedRuns

variable {P : Type} {s s' : DriveState P} {r : DriveReader P} {d : Drive P} {m : Move P}

/-- What a reader reads of a stream: its frames in their order, some of them yet or all and then its end and nothing more. -/
inductive Reads (frames : List (BuildReply P)) (last : Option (Read P)) (reads : List (Option (Read P))) : Prop where
  | reading (n : Nat) (hreads : reads = (frames.take n).map fun frame => some (.frame frame))
  | ended (e : Read P) (k : Nat) (hlast : last = some e)
      (hreads : reads = (frames.map fun frame => some (.frame frame)) ++ some e :: List.replicate k none)

/-- A reader is at its cursor, or has read the drive's end after its last frame. -/
inductive Follows (s : DriveState P) (r : DriveReader P) : Prop where
  | reading (hdone : r.done = false) (hcursor : r.cursor ≤ s.events.length)
      (hreads : r.reads = (s.events.take r.cursor).map fun frame => some (.frame frame))
  | finished (e : Read P) (k : Nat) (hdone : r.done = true) (hidle : r.stage = .idle) (hend : s.end? = some e)
      (hreads : r.reads = (s.events.map fun frame => some (.frame frame)) ++ some e :: List.replicate k none)

/-- A reader that waits and was not notified has nothing to read, or a writer is about to notify it. -/
def Awaits (d : Drive P) (r : DriveReader P) : Prop :=
  r.stage = .waiting false → d.notifying ≠ 0 ∨ (d.state.events.length ≤ r.cursor ∧ d.state.end? = none)

/-- What holds of a drive in a run that goes on as it should. -/
structure Sound (d : Drive P) : Prop where
  keys : (d.state.events.filterMap frameKey).Nodup
  seen : ∀ key, key ∈ d.state.seen ↔ key ∈ d.state.events.filterMap frameKey
  reader : ∀ r ∈ d.readers, Follows d.state r
  waits : ∀ r ∈ d.readers, Awaits d r

/-- Whether a move comes as the drive needs it: once the role is lost, no frame follows that a key does not refuse,
and no terminal once a reader has read the loss. -/
def permits (d : Drive P) : Move P → Bool
  | .push frame => d.state.lost.isNone || d.state.terminal.isSome || (frameKey frame).any (· ∈ d.state.seen)
  | .finish _ => d.state.lost.isNone || d.state.terminal.isSome || d.readers.all fun r => !r.done
  | _ => true

section Readers

theorem Follows.reads (h : Follows s r) : Reads s.events s.end? r.reads := by
  cases h with
  | reading hdone hcursor hreads => exact .reading r.cursor hreads
  | finished e k hdone hidle hend hreads => exact .ended e k hend hreads

theorem isEnd_of_end? {e : Read P} (h : s.end? = some e) : e.isEnd = true := by
  unfold DriveState.end? at h
  cases hterminal : s.terminal with
  | some t =>
    rw [hterminal] at h
    cases h
    rfl
  | none =>
    rw [hterminal] at h
    obtain ⟨loss, -, rfl⟩ := Option.map_eq_some_iff.mp h
    rfl

theorem not_isEnd_of_mem_frames {frames : List (BuildReply P)} {e : Read P}
    (h : some e ∈ frames.map fun frame => some (Read.frame frame)) : e.isEnd = false := by
  obtain ⟨frame, -, heq⟩ := List.mem_map.mp h
  rw [← Option.some.inj heq]
  rfl

/-- The end a reader has read is the drive's. -/
theorem Follows.end_of_mem (h : Follows s r) {e : Read P} (hmem : some e ∈ r.reads) (hend : e.isEnd = true) :
    s.end? = some e := by
  cases h with
  | reading hdone hcursor hreads =>
    rw [hreads] at hmem
    rw [not_isEnd_of_mem_frames hmem] at hend
    cases hend
  | finished last k hdone hidle hlast hreads =>
    rw [hreads] at hmem
    rcases List.mem_append.mp hmem with hframe | hrest
    · rw [not_isEnd_of_mem_frames hframe] at hend
      cases hend
    · rcases List.mem_cons.mp hrest with heq | hnone
      · rw [Option.some.inj heq]
        exact hlast
      · cases (List.mem_replicate.mp hnone).2

theorem Follows.mono_end (h : Follows s r) (hevents : s'.events = s.events) (hend : r.done = true → s'.end? = s.end?) :
    Follows s' r := by
  cases h with
  | reading hdone hcursor hreads => exact .reading hdone (hevents ▸ hcursor) (by rw [hevents]; exact hreads)
  | finished e k hdone hidle hlast hreads =>
    exact .finished e k hdone hidle ((hend hdone).trans hlast) (by rw [hevents]; exact hreads)

theorem Follows.pushed (h : Follows s r) (hopen : r.done = false) {frame : BuildReply P}
    (hevents : s'.events = s.events ++ [frame]) : Follows s' r := by
  cases h with
  | reading hdone hcursor hreads =>
    refine .reading hdone ?_ ?_
    · rw [hevents, List.length_append]
      omega
    · rw [hevents, List.take_append_of_le_length hcursor]
      exact hreads
  | finished e k hdone hidle hlast hreads =>
    rw [hopen] at hdone
    cases hdone

/-- A turn of a reader keeps it at its stream. -/
theorem Follows.next (h : Follows s r) : Follows s (r.next s) := by
  unfold DriveReader.next
  cases h with
  | reading hdone hcursor hreads =>
    cases hstage : r.stage with
    | idle =>
      dsimp only
      rw [if_neg (hdone ▸ Bool.false_ne_true)]
      exact .reading hdone hcursor hreads
    | enabled notified =>
      dsimp only
      cases hframe : s.events[r.cursor]? with
      | some frame =>
        obtain ⟨hlt, hget⟩ := List.getElem?_eq_some_iff.mp hframe
        refine .reading hdone hlt ?_
        change r.reads ++ [some (.frame frame)] = _
        rw [List.take_add_one, hframe, hreads]
        simp
      | none =>
        have hlast : r.cursor = s.events.length := Nat.le_antisymm hcursor (List.getElem?_eq_none_iff.mp hframe)
        dsimp only
        cases hend : s.end? with
        | some e =>
          refine .finished e 0 rfl rfl hend ?_
          change r.reads ++ [some e] = _
          rw [hreads, hlast, List.take_length]
          rfl
        | none => exact .reading hdone hcursor hreads
    | waiting notified =>
      cases notified
      · exact .reading hdone hcursor hreads
      · exact .reading hdone hcursor hreads
  | finished e k hdone hidle hend hreads =>
    rw [hidle]
    dsimp only
    rw [if_pos hdone]
    refine .finished e (k + 1) hdone rfl hend ?_
    change r.reads ++ [none] = _
    rw [hreads, List.replicate_succ', List.append_assoc, List.cons_append]

theorem Follows.notified (h : Follows s r) : Follows s r.notified := by
  cases h with
  | reading hdone hcursor hreads => exact .reading hdone hcursor hreads
  | finished e k hdone hidle hend hreads =>
    refine .finished e k hdone ?_ hend hreads
    change r.stage.notified = .idle
    rw [hidle]
    rfl

theorem notified_not_waiting (r : DriveReader P) : r.notified.stage ≠ .waiting false := by
  change r.stage.notified ≠ .waiting false
  cases r.stage with
  | idle => simp [Stage.notified]
  | enabled notified => simp [Stage.notified]
  | waiting notified => simp [Stage.notified]

theorem Follows.cancelled (h : Follows s r) : Follows s { r with stage := .idle } := by
  cases h with
  | reading hdone hcursor hreads => exact .reading hdone hcursor hreads
  | finished e k hdone hidle hend hreads => exact .finished e k hdone rfl hend hreads

/-- A reader waits on what it registered with only when it found nothing to read. -/
theorem next_waits (hstage : (r.next s).stage = .waiting false) (hready : r.stage ≠ .waiting false) :
    s.events.length ≤ (r.next s).cursor ∧ s.end? = none := by
  unfold DriveReader.next at hstage ⊢
  cases hwas : r.stage with
  | idle =>
    simp only [hwas] at hstage
    split at hstage
    next => cases hstage
    next => cases hstage
  | enabled notified =>
    simp only [hwas] at hstage ⊢
    cases hframe : s.events[r.cursor]? with
    | some frame =>
      rw [hframe] at hstage
      cases hstage
    | none =>
      cases hend : s.end? with
      | some e =>
        rw [hframe, hend] at hstage
        cases hstage
      | none => exact ⟨List.getElem?_eq_none_iff.mp hframe, rfl⟩
  | waiting notified =>
    cases notified with
    | false => exact absurd hwas hready
    | true =>
      simp only [hwas] at hstage
      cases hstage

end Readers

section Steps

theorem sound_new : Sound (Drive.new : Drive P) where
  keys := List.nodup_nil
  seen key := by simp [Drive.new, DriveState.new]
  reader r hr := by cases hr
  waits r hr := by cases hr

theorem Follows.ended_of_done (h : Follows s r) (hdone : r.done = true) : s.ended = true := by
  cases h with
  | reading hopen hcursor hreads =>
    rw [hopen] at hdone
    cases hdone
  | finished e k hclosed hidle hend hreads =>
    rw [DriveState.ended_iff, hend]
    exact Option.some_ne_none e

/-- A frame passed on where moves come as they should finds every reader still reading. -/
theorem Sound.push (h : Sound d) {frame : BuildReply P} (hm : permits d (.push frame) = true) :
    Sound (d.step (.push frame)) := by
  rcases DriveState.push_cases d.state frame with ⟨hrefused, -⟩ | ⟨seen, hpassed, hopen, hfresh, hseen⟩
  · have hsame : d.step (.push frame) = d := by simp only [Drive.step, hrefused, Bool.false_eq_true, if_false, Nat.add_zero]
    rw [hsame]
    exact h
  · have hmade : d.step (.push frame) = { d with
        state := { d.state with seen := seen, events := d.state.events ++ [frame] }, notifying := d.notifying + 1 } := by
      simp only [Drive.step, hpassed, if_true]
    have hreading : ∀ r ∈ d.readers, r.done = false := by
      intro r hr
      by_contra hdone
      have hended := (h.reader r hr).ended_of_done (by simpa using hdone)
      have hlost : d.state.lost.isSome = true := by simpa [DriveState.ended, hopen] using hended
      simp only [permits, hopen, Option.isSome_none, Bool.or_false, Bool.or_eq_true, Option.isNone_iff_eq_none,
        Option.any_eq_true, decide_eq_true_eq] at hm
      rcases hm with hnone | ⟨key, hkey, hheld⟩
      · rw [hnone] at hlost
        cases hlost
      · exact hfresh key hkey hheld
    rw [hmade]
    refine ⟨?_, ?_, ?_, ?_⟩
    · change ((d.state.events ++ [frame]).filterMap frameKey).Nodup
      rw [List.filterMap_append]
      refine List.Nodup.append h.keys ?_ ?_
      · cases hkey : frameKey frame with
        | none => simp [hkey]
        | some key => simp [hkey]
      · intro key hold hnew
        have hkey : frameKey frame = some key := by simpa using hnew
        exact hfresh key hkey ((h.seen key).mpr hold)
    · intro key
      change key ∈ seen ↔ key ∈ (d.state.events ++ [frame]).filterMap frameKey
      rw [hseen, h.seen, List.filterMap_append, List.mem_append]
      simp
    · intro r hr
      exact (h.reader r hr).pushed (hreading r hr) rfl
    · intro r hr hstage
      exact .inl (Nat.succ_ne_zero _)

/-- What a writer that sets an end keeps: no reader has read another before. -/
theorem Sound.ends (h : Sound d) (hevents : s'.events = d.state.events) (hseen : s'.seen = d.state.seen)
    (hend : ∀ r ∈ d.readers, r.done = true → s'.end? = d.state.end?) :
    Sound { d with state := s', notifying := d.notifying + 1 } where
  keys := by
    change (s'.events.filterMap frameKey).Nodup
    rw [hevents]
    exact h.keys
  seen key := by
    change key ∈ s'.seen ↔ key ∈ s'.events.filterMap frameKey
    rw [hevents, hseen]
    exact h.seen key
  reader r hr := (h.reader r hr).mono_end hevents (hend r hr)
  waits r hr hstage := .inl (Nat.succ_ne_zero _)

theorem Sound.finish (h : Sound d) {terminal : BuildReply P} (hm : permits d (.finish terminal) = true) :
    Sound (d.step (.finish terminal)) := by
  refine h.ends ?_ ?_ ?_
  · unfold DriveState.finish
    split
    all_goals rfl
  · unfold DriveState.finish
    split
    all_goals rfl
  · intro r hr hdone
    unfold DriveState.finish
    split
    next hopen =>
      have hended := (h.reader r hr).ended_of_done hdone
      rw [Option.isNone_iff_eq_none] at hopen
      simp only [DriveState.ended, hopen, Option.isSome_none, Bool.false_or] at hended
      simp only [permits, hopen, Option.isSome_none, Bool.or_false, Bool.or_eq_true, Option.isNone_iff_eq_none,
        List.all_eq_true, Bool.not_eq_true'] at hm
      rcases hm with hnone | hreading
      · rw [hnone] at hended
        cases hended
      · rw [hreading r hr] at hdone
        cases hdone
    next => rfl

theorem Sound.loseFabricPrimary (h : Sound d) (loss : RoleLoss) : Sound (d.step (.loseFabricPrimary loss)) := by
  refine h.ends ?_ ?_ ?_
  · unfold DriveState.loseFabricPrimary
    split
    all_goals rfl
  · unfold DriveState.loseFabricPrimary
    split
    all_goals rfl
  · intro r hr hdone
    unfold DriveState.loseFabricPrimary
    split
    next hopen =>
      have hended := (h.reader r hr).ended_of_done hdone
      rw [Bool.and_eq_true, Option.isNone_iff_eq_none, Option.isNone_iff_eq_none] at hopen
      simp [DriveState.ended, hopen] at hended
    next => rfl

theorem Sound.notifyWaiters (h : Sound d) : Sound (d.step .notifyWaiters) := by
  simp only [Drive.step]
  split
  next => exact h
  next =>
    refine ⟨h.keys, h.seen, ?_, ?_⟩
    · intro r hr
      obtain ⟨old, hold, rfl⟩ := List.mem_map.mp hr
      exact (h.reader old hold).notified
    · intro r hr hstage
      obtain ⟨old, hold, rfl⟩ := List.mem_map.mp hr
      exact absurd hstage (notified_not_waiting old)

/-- A reader that moved on by itself leaves the others as they were. -/
theorem Sound.moved (h : Sound d) {i : Nat} {new : DriveReader P} (hfollows : Follows d.state new) (hwaits : Awaits d new) :
    Sound { d with readers := d.readers.set i new } :=
  ⟨h.keys, h.seen, forall_mem_set h.reader hfollows, forall_mem_set h.waits hwaits⟩

theorem Sound.next (h : Sound d) (i : Nat) : Sound (d.step (.next i)) := by
  simp only [Drive.step]
  cases hi : d.readers[i]? with
  | none => exact h
  | some r =>
    have hr := List.mem_of_getElem? hi
    refine h.moved (h.reader r hr).next ?_
    intro hstage
    by_cases hwas : r.stage = .waiting false
    · have hsame : r.next d.state = r := by
        unfold DriveReader.next
        rw [hwas]
        rfl
      rw [hsame]
      exact h.waits r hr hwas
    · exact .inr (next_waits hstage hwas)

theorem Sound.cancels (h : Sound d) (i : Nat) : Sound (d.step (.cancels i)) := by
  simp only [Drive.step]
  cases hi : d.readers[i]? with
  | none => exact h
  | some r =>
    refine h.moved (h.reader r (List.mem_of_getElem? hi)).cancelled ?_
    intro hstage
    cases hstage

theorem Sound.joined (h : Sound d) : Sound (d.step .reader) := by
  refine ⟨h.keys, h.seen, ?_, ?_⟩
  · intro r hr
    rcases List.mem_append.mp hr with hr | hr
    · exact h.reader r hr
    · rw [List.mem_singleton.mp hr]
      exact .reading rfl (Nat.zero_le _) rfl
  · intro r hr hstage
    rcases List.mem_append.mp hr with hr | hr
    · exact h.waits r hr hstage
    · rw [List.mem_singleton.mp hr] at hstage
      cases hstage

theorem Sound.step (h : Sound d) (hm : permits d m = true) : Sound (d.step m) := by
  cases m with
  | push frame => exact h.push hm
  | finish terminal => exact h.finish hm
  | loseFabricPrimary loss => exact h.loseFabricPrimary loss
  | notifyWaiters => exact h.notifyWaiters
  | reader => exact h.joined
  | next i => exact h.next i
  | cancels i => exact h.cancels i

end Steps

section Progress

variable {n i : Nat} {e : Bool}

theorem events_step (d : Drive P) (m : Move P) : (d.step m).state.events = d.state.events ++ d.accepts m := by
  have hfinish : ∀ t, (d.state.finish t).events = d.state.events := by
    intro t
    unfold DriveState.finish
    split
    all_goals rfl
  have hlose : ∀ loss, (d.state.loseFabricPrimary loss).events = d.state.events := by
    intro loss
    unfold DriveState.loseFabricPrimary
    split
    all_goals rfl
  cases m with
  | push frame =>
    rcases DriveState.push_cases d.state frame with ⟨hrefused, -⟩ | ⟨seen, hpassed, -⟩
    · simp [Drive.step, Drive.accepts, hrefused]
    · simp [Drive.step, Drive.accepts, hpassed]
  | finish terminal => simp [Drive.step, Drive.accepts, hfinish]
  | loseFabricPrimary loss => simp [Drive.step, Drive.accepts, hlose]
  | notifyWaiters =>
    simp only [Drive.step, Drive.accepts, List.append_nil]
    split
    all_goals rfl
  | reader => simp [Drive.step, Drive.accepts]
  | next i =>
    simp only [Drive.step, Drive.accepts, List.append_nil]
    cases d.readers[i]? with
    | none => rfl
    | some r => rfl
  | cancels i =>
    simp only [Drive.step, Drive.accepts, List.append_nil]
    cases d.readers[i]? with
    | none => rfl
    | some r => rfl

theorem events_run (d : Drive P) (moves : List (Move P)) :
    (moves.foldl Drive.step d).state.events = d.state.events ++ d.accepted moves := by
  induction moves generalizing d with
  | nil => rw [Drive.accepted, List.append_nil, List.foldl_nil]
  | cons m moves ih => rw [List.foldl_cons, ih, events_step, Drive.accepted, List.append_assoc]

theorem DriveState.ended_push (s : DriveState P) (frame : BuildReply P) : (s.push frame).1.ended = s.ended := by
  rcases DriveState.push_cases s frame with ⟨hrefused, -⟩ | ⟨seen, hpassed, -⟩
  · rw [hrefused]
  · rw [hpassed]
    rfl

theorem ended_step (h : d.state.ended = true) (m : Move P) : (d.step m).state.ended = true := by
  cases m with
  | push frame => exact (DriveState.ended_push d.state frame).trans h
  | finish terminal =>
    change (d.state.finish terminal).ended = true
    unfold DriveState.finish
    split
    next => rfl
    next => exact h
  | loseFabricPrimary loss =>
    change (d.state.loseFabricPrimary loss).ended = true
    unfold DriveState.loseFabricPrimary
    split
    next => simp [DriveState.ended]
    next => exact h
  | notifyWaiters =>
    simp only [Drive.step]
    split
    all_goals exact h
  | reader => exact h
  | next i =>
    simp only [Drive.step]
    cases d.readers[i]? with
    | none => exact h
    | some r => exact h
  | cancels i =>
    simp only [Drive.step]
    cases d.readers[i]? with
    | none => exact h
    | some r => exact h

/-- Where moves come as they should, a drive that ended takes no frame. -/
theorem refused_of_ended {frame : BuildReply P} (hm : permits d (.push frame) = true) (hended : d.state.ended = true) :
    (d.state.push frame).2 = false := by
  rcases DriveState.push_cases d.state frame with ⟨hrefused, -⟩ | ⟨seen, -, hopen, hfresh, -⟩
  · rw [hrefused]
  · simp only [DriveState.ended, hopen, Option.isSome_none, Bool.false_or] at hended
    simp only [permits, hopen, Option.isSome_none, Bool.or_false, Bool.or_eq_true, Option.isNone_iff_eq_none,
      Option.any_eq_true, decide_eq_true_eq] at hm
    rcases hm with hnone | ⟨key, hkey, hheld⟩
    · rw [hnone] at hended
      cases hended
    · exact absurd hheld (hfresh key hkey)

theorem accepts_of_ended (hm : permits d m = true) (hended : d.state.ended = true) : d.accepts m = [] := by
  cases m with
  | push frame => simp [Drive.accepts, refused_of_ended hm hended]
  | _ => rfl

/-- The reader has read the end, or the first `n` frames of a drive that had not ended. -/
def Reached (n : Nat) (e : Bool) (r : DriveReader P) : Prop := r.done = true ∨ (n ≤ r.cursor ∧ e = false)

/-- A reader that has read that far, or is not waiting in vain. -/
def Unblocked (n : Nat) (e : Bool) (r : DriveReader P) : Prop := Reached n e r ∨ r.stage ≠ .waiting false

/-- A drive with `n` frames to read at its reader `i`, and where it has ended no more than them. -/
structure Ahead (n : Nat) (e : Bool) (i : Nat) (d : Drive P) (r : DriveReader P) : Prop where
  reader : d.readers[i]? = some r
  frames : n ≤ d.state.events.length
  ended : e = true → d.state.ended = true ∧ d.state.events.length = n

/-- The turns that take a reader that far. -/
def turnsLeft (n : Nat) (r : DriveReader P) : Nat :=
  2 * (n - r.cursor + 1) - match r.stage with
    | .enabled _ => 1
    | _ => 0

theorem turnsLeft_le (n : Nat) (r : DriveReader P) : turnsLeft n r ≤ 2 * (n + 1) := by
  unfold turnsLeft
  omega

theorem Reached.next (h : Reached n e r) : Reached n e (r.next s) := by
  unfold DriveReader.next
  cases r.stage with
  | idle =>
    dsimp only
    split
    next => exact h
    next => exact h
  | enabled notified =>
    dsimp only
    cases s.events[r.cursor]? with
    | some frame =>
      rcases h with hdone | ⟨hcursor, hopen⟩
      · exact .inl hdone
      · exact .inr ⟨Nat.le_succ_of_le hcursor, hopen⟩
    | none =>
      dsimp only
      cases s.end? with
      | some e => exact .inl rfl
      | none => exact h
  | waiting notified =>
    dsimp only
    split
    next => exact h
    next => exact h

/-- A turn of a reader that is not waiting in vain takes it on. -/
theorem next_progress (hframes : n ≤ s.events.length) (hended : e = true → s.ended = true ∧ s.events.length = n)
    (h : Unblocked n e r) :
    Unblocked n e (r.next s) ∧ (Reached n e (r.next s) ∨ turnsLeft n (r.next s) < turnsLeft n r) := by
  by_cases hreached : Reached n e r
  · exact ⟨.inl hreached.next, .inl hreached.next⟩
  · have hstage := h.resolve_left hreached
    have hfar : n ≤ r.cursor → e = true := by
      intro hcursor
      by_contra hopen
      exact hreached (.inr ⟨hcursor, by simpa using hopen⟩)
    unfold DriveReader.next
    cases hwas : r.stage with
    | idle =>
      dsimp only
      rw [if_neg (fun hdone => hreached (.inl hdone))]
      refine ⟨.inr (by simp), .inr ?_⟩
      simp only [turnsLeft, hwas]
      omega
    | enabled notified =>
      dsimp only
      cases hframe : s.events[r.cursor]? with
      | some frame =>
        refine ⟨.inr (by simp [DriveReader.returns]), .inr ?_⟩
        have hcursor := (List.getElem?_eq_some_iff.mp hframe).1
        have hbefore : r.cursor < n := by
          by_contra hpast
          have hall := (hended (hfar (by omega))).2
          omega
        simp only [turnsLeft, hwas, DriveReader.returns]
        omega
      | none =>
        have hcursor := List.getElem?_eq_none_iff.mp hframe
        have hclosed := DriveState.ended_iff.mp (hended (hfar (by omega))).1
        dsimp only
        cases hend : s.end? with
        | some last => exact ⟨.inl (.inl rfl), .inl (.inl rfl)⟩
        | none => exact absurd hend hclosed
    | waiting notified =>
      cases notified with
      | false => exact absurd hwas hstage
      | true =>
        refine ⟨.inr (by simp), .inr ?_⟩
        simp only [turnsLeft, hwas, if_true]
        omega

/-- What a move does to a reader. -/
inductive Moves (d : Drive P) (i : Nat) (r : DriveReader P) : Move P → DriveReader P → Prop where
  | stays {m : Move P} (hm : m ≠ .next i) (hnotify : m = .notifyWaiters → d.notifying = 0) : Moves d i r m r
  | notified : Moves d i r .notifyWaiters r.notified
  | next : Moves d i r (.next i) (r.next d.state)
  | cancels : Moves d i r (.cancels i) { r with stage := .idle }

theorem reader_step (hi : d.readers[i]? = some r) (m : Move P) :
    ∃ r', (d.step m).readers[i]? = some r' ∧ Moves d i r m r' := by
  cases m with
  | push frame => exact ⟨r, hi, .stays (by simp) (by simp)⟩
  | finish terminal => exact ⟨r, hi, .stays (by simp) (by simp)⟩
  | loseFabricPrimary loss => exact ⟨r, hi, .stays (by simp) (by simp)⟩
  | notifyWaiters =>
    simp only [Drive.step]
    split
    next hnone => exact ⟨r, hi, .stays (by simp) (fun _ => hnone)⟩
    next =>
      refine ⟨r.notified, ?_, .notified⟩
      rw [List.getElem?_map, hi]
      rfl
  | reader =>
    refine ⟨r, ?_, .stays (by simp) (by simp)⟩
    exact (List.getElem?_append_left (List.getElem?_eq_some_iff.mp hi).1).trans hi
  | next j =>
    by_cases hj : j = i
    · subst hj
      refine ⟨r.next d.state, ?_, .next⟩
      simp only [Drive.step, hi]
      exact getElem?_set_new hi
    · refine ⟨r, ?_, .stays (by simpa using hj) (by simp)⟩
      simp only [Drive.step]
      cases d.readers[j]? with
      | none => exact hi
      | some r' => exact (List.getElem?_set_ne hj).trans hi
  | cancels j =>
    by_cases hj : j = i
    · subst hj
      refine ⟨{ r with stage := .idle }, ?_, .cancels⟩
      simp only [Drive.step, hi]
      exact getElem?_set_new hi
    · refine ⟨r, ?_, .stays (by simp) (by simp)⟩
      simp only [Drive.step]
      cases d.readers[j]? with
      | none => exact hi
      | some r' => exact (List.getElem?_set_ne hj).trans hi

theorem Ahead.step (h : Ahead n e i d r) (hm : permits d m = true) :
    ∃ r', Ahead n e i (d.step m) r' ∧ Moves d i r m r' := by
  obtain ⟨r', hr', hmoves⟩ := reader_step h.reader m
  refine ⟨r', ⟨hr', ?_, ?_⟩, hmoves⟩
  · rw [events_step, List.length_append]
    exact Nat.le_add_right_of_le h.frames
  · intro he
    obtain ⟨hended, hlength⟩ := h.ended he
    rw [events_step, accepts_of_ended hm hended, List.append_nil]
    exact ⟨ended_step hended m, hlength⟩

theorem Reached.moves {r' : DriveReader P} (h : Reached n e r) (hmoves : Moves d i r m r') : Reached n e r' := by
  cases hmoves with
  | stays => exact h
  | notified => exact h
  | next => exact h.next
  | cancels => exact h

theorem Unblocked.moves {r' : DriveReader P} (h : Unblocked n e r) (hahead : Ahead n e i d r) (hmoves : Moves d i r m r') :
    Unblocked n e r' := by
  cases hmoves with
  | stays => exact h
  | notified => exact .inr (notified_not_waiting r)
  | next => exact (next_progress hahead.frames hahead.ended h).1
  | cancels => exact .inr (by simp)

theorem notifying_step (hm : m ≠ .notifyWaiters) : d.notifying ≤ (d.step m).notifying := by
  cases m with
  | push frame => exact Nat.le_add_right _ _
  | finish terminal => exact Nat.le_add_right _ _
  | loseFabricPrimary loss => exact Nat.le_add_right _ _
  | notifyWaiters => exact absurd rfl hm
  | reader => exact Nat.le_refl _
  | next j =>
    simp only [Drive.step]
    cases d.readers[j]? with
    | none => exact Nat.le_refl _
    | some r => exact Nat.le_refl _
  | cancels j =>
    simp only [Drive.step]
    cases d.readers[j]? with
    | none => exact Nat.le_refl _
    | some r => exact Nat.le_refl _

/-- Once one of the writers that changed the drive has notified, its reader is not waiting in vain. -/
theorem unblocked_run {moves : List (Move P)} (hok : RunOk Drive.step (fun d m => permits d m = true) d moves)
    (h : Ahead n e i d r) (hwakes : Unblocked n e r ∨ (d.notifying ≠ 0 ∧ .notifyWaiters ∈ moves)) :
    ∃ r', Ahead n e i (moves.foldl Drive.step d) r' ∧ Unblocked n e r' := by
  induction moves generalizing d r with
  | nil =>
    refine ⟨r, h, hwakes.resolve_right ?_⟩
    rintro ⟨-, hmem⟩
    cases hmem
  | cons m moves ih =>
    obtain ⟨r', h', hmoves⟩ := h.step hok.1
    refine ih hok.2 h' ?_
    rcases hwakes with hopen | ⟨hnotifying, hmem⟩
    · exact .inl (hopen.moves h hmoves)
    · by_cases hm : m = .notifyWaiters
      · subst hm
        cases hmoves with
        | stays hne hnone => exact absurd (hnone rfl) hnotifying
        | notified => exact .inl (.inr (notified_not_waiting r))
      · have hkept := notifying_step (d := d) hm
        refine .inr ⟨by omega, ?_⟩
        exact (List.mem_cons.mp hmem).resolve_left (Ne.symm hm)

def Move.isNext (i : Nat) : Move P → Bool
  | .next j => j == i
  | _ => false

/-- A move takes a turn from what a reader has left when it is its own, and gives none back unless its call is dropped. -/
theorem turnsLeft_moves {r' : DriveReader P} (hahead : Ahead n e i d r) (h : Unblocked n e r) (hmoves : Moves d i r m r')
    (hm : m ≠ .cancels i) : Reached n e r' ∨ turnsLeft n r' + (if m.isNext i then 1 else 0) ≤ turnsLeft n r := by
  cases hmoves with
  | stays hne =>
    have hother : m.isNext i = false := by
      cases m with
      | next j => simpa [Move.isNext] using hne
      | _ => rfl
    simp [hother]
  | notified =>
    refine .inr ?_
    have hsame : turnsLeft n r.notified = turnsLeft n r := by
      unfold turnsLeft DriveReader.notified
      cases r.stage with
      | idle => rfl
      | enabled notified => rfl
      | waiting notified => rfl
    simp [Move.isNext, hsame]
  | next =>
    have hown : (Move.next i : Move P).isNext i = true := by simp [Move.isNext]
    rw [if_pos hown]
    exact (next_progress hahead.frames hahead.ended h).2
  | cancels => exact absurd rfl hm

theorem reached_run {moves : List (Move P)} (hok : RunOk Drive.step (fun d m => permits d m = true) d moves)
    (h : Ahead n e i d r) (hopen : Unblocked n e r) (hcancels : .cancels i ∉ moves)
    (hturns : Reached n e r ∨ turnsLeft n r ≤ moves.countP (Move.isNext i)) :
    ∃ r', (moves.foldl Drive.step d).readers[i]? = some r' ∧ Reached n e r' := by
  induction moves generalizing d r with
  | nil =>
    refine ⟨r, h.reader, hturns.resolve_right ?_⟩
    rw [List.countP_nil]
    unfold turnsLeft
    split
    all_goals omega
  | cons m moves ih =>
    obtain ⟨r', h', hmoves⟩ := h.step hok.1
    have hm : m ≠ .cancels i := fun heq => hcancels (heq ▸ List.mem_cons_self)
    refine ih hok.2 h' (hopen.moves h hmoves) (fun hmem => hcancels (List.mem_cons_of_mem m hmem)) ?_
    rcases hturns with hreached | hturns
    · exact .inl (hreached.moves hmoves)
    · rcases turnsLeft_moves h hopen hmoves hm with hreached | hleft
      · exact .inl hreached
      · rw [List.countP_cons] at hturns
        exact .inr (by omega)

end Progress

section Streams

/-- Every reader of the drive reads one stream in this run. -/
structure OneStream (moves : List (Move P)) : Prop where
  reads : ∀ r ∈ (Drive.after moves).readers, Reads (Drive.new.accepted moves) (Drive.after moves).state.end? r.reads
  keys : ((Drive.new.accepted moves).filterMap frameKey).Nodup
  closed : ∀ before frame rest, moves = before ++ .push frame :: rest → (Drive.after before).state.ended = true →
    ((Drive.after before).state.push frame).2 = false
  same : ∀ r ∈ (Drive.after moves).readers, ∀ r' ∈ (Drive.after moves).readers, ∀ e e' : Read P,
    some e ∈ r.reads → some e' ∈ r'.reads → e.isEnd = true → e'.isEnd = true → e = e'
  /-- A reader that keeps calling, its calls not dropped, reads every frame there was and the end there was, once one
  of the writers that were about to has notified. -/
  awaited : ∀ before notices turns i r, moves = before ++ (notices ++ turns) → (Drive.after before).readers[i]? = some r →
    ((Drive.after before).notifying ≠ 0 → .notifyWaiters ∈ notices) → .cancels i ∉ turns →
    2 * ((Drive.new.accepted before).length + 1) ≤ turns.countP (Move.isNext i) →
    ∃ r', (Drive.after moves).readers[i]? = some r' ∧
      ((Drive.new.accepted before).map fun frame => some (.frame frame)) <+: r'.reads ∧
      ((Drive.after before).state.ended = true → ∃ e : Read P, e.isEnd = true ∧ some e ∈ r'.reads)

/-- Every move of the run comes as the drive needs it. -/
def Orderly (moves : List (Move P)) : Prop := RunOk Drive.step (fun d m => permits d m = true) Drive.new moves

instance (moves : List (Move P)) : Decidable (Orderly moves) := RunOk.decidable _ _

theorem Orderly.sound {moves : List (Move P)} (h : Orderly moves) : Sound (Drive.after moves) :=
  RunOk.invariant (I := Sound) (fun _ _ hs hm => hs.step hm) sound_new h

theorem events_after (moves : List (Move P)) : (Drive.after moves).state.events = Drive.new.accepted moves :=
  events_run Drive.new moves

/-- What a reader that got that far has read: every frame there was, and the end if there was one. -/
theorem Reached.reads {n : Nat} {frames : List (BuildReply P)} {e : Bool} (h : Reached n e r) (hfollows : Follows s r)
    (hframes : frames <+: s.events) (hn : frames.length = n) :
    (frames.map fun frame => some (Read.frame frame)) <+: r.reads ∧
      (e = true → ∃ last : Read P, last.isEnd = true ∧ some last ∈ r.reads) := by
  cases hfollows with
  | reading hdone hcursor hreads =>
    rcases h with hfinished | ⟨hread, hopen⟩
    · rw [hdone] at hfinished
      cases hfinished
    · refine ⟨?_, fun he => ?_⟩
      · rw [hreads]
        refine List.IsPrefix.map _ (List.prefix_of_prefix_length_le hframes (List.take_prefix _ _) ?_)
        rw [List.length_take, Nat.min_eq_left hcursor]
        omega
      · rw [hopen] at he
        cases he
  | finished last k hdone hidle hlast hreads =>
    refine ⟨?_, fun _ => ⟨last, isEnd_of_end? hlast, ?_⟩⟩
    · rw [hreads]
      exact (hframes.map _).trans (List.prefix_append _ _)
    · rw [hreads]
      exact List.mem_append_right _ List.mem_cons_self

theorem one_stream (moves : List (Move P)) (h : Orderly moves) : OneStream moves := by
  have hsound := h.sound
  refine ⟨?_, ?_, ?_, ?_, ?_⟩
  · intro r hr
    have hreads := (hsound.reader r hr).reads
    rwa [events_after] at hreads
  · have hkeys := hsound.keys
    rwa [events_after] at hkeys
  · rintro before frame rest rfl hended
    obtain ⟨-, hpermits⟩ := RunOk.at (I := fun _ => True) (fun _ _ _ _ => trivial) trivial h
    exact refused_of_ended hpermits hended
  · intro r hr r' hr' e e' he he' hend hend'
    have hlast := (hsound.reader r hr).end_of_mem he hend
    rw [(hsound.reader r' hr').end_of_mem he' hend'] at hlast
    exact (Option.some.inj hlast).symm
  · rintro before notices turns i r rfl hi hnotices hcancels hturns
    obtain ⟨hbefore, hrest⟩ := (runOk_append _ before (notices ++ turns)).mp h
    obtain ⟨hwoken, hcalls⟩ := (runOk_append _ notices turns).mp hrest
    have hahead : Ahead (Drive.new.accepted before).length (Drive.after before).state.ended i (Drive.after before) r := by
      rw [← events_after]
      exact ⟨hi, le_rfl, fun hended => ⟨hended, rfl⟩⟩
    have hwakes : Unblocked (Drive.new.accepted before).length (Drive.after before).state.ended r ∨
        ((Drive.after before).notifying ≠ 0 ∧ .notifyWaiters ∈ notices) := by
      by_cases hstage : r.stage = .waiting false
      · rcases (Orderly.sound hbefore).waits r (List.mem_of_getElem? hi) hstage with hnotifying | ⟨hcursor, hopen⟩
        · exact .inr ⟨hnotifying, hnotices hnotifying⟩
        · refine .inl (.inl (.inr ⟨by rwa [events_after] at hcursor, ?_⟩))
          rw [← Bool.not_eq_true, DriveState.ended_iff, hopen]
          simp
      · exact .inl (.inr hstage)
    obtain ⟨r₁, hahead₁, hopen⟩ := unblocked_run hwoken hahead hwakes
    obtain ⟨r', hr', hreached⟩ := reached_run hcalls hahead₁ hopen hcancels
      (.inr (Nat.le_trans (turnsLeft_le _ r₁) hturns))
    have hafter : Drive.after (before ++ (notices ++ turns)) =
        turns.foldl Drive.step (notices.foldl Drive.step (Drive.after before)) := by
      rw [Drive.after, List.foldl_append, List.foldl_append]
      rfl
    have hread : (Drive.after (before ++ (notices ++ turns))).readers[i]? = some r' := by
      rw [hafter]
      exact hr'
    refine ⟨r', hread, hreached.reads (hsound.reader r' (List.mem_of_getElem? hread)) ?_ rfl⟩
    rw [hafter, events_run, events_run, events_after, List.append_assoc]
    exact List.prefix_append _ _

/-- The role is lost, a reader reads that, and then a frame and a terminal come. -/
def lostMoves : List (Move String) :=
  [.reader, .reader, .loseFabricPrimary ⟨"the role moved", none⟩, .notifyWaiters, .next 0, .next 0,
    .push (.step "mesh1" "node.create:n1" "started" "b1"), .notifyWaiters, .finish (.other "complete"), .notifyWaiters,
    .next 1, .next 1, .next 1, .next 1, .next 0]

theorem lostMoves_two_streams :
    (Drive.after lostMoves).readers.map DriveReader.reads =
      [[some (.roleLost ⟨"the role moved", none⟩), none],
        [some (.frame (.step "mesh1" "node.create:n1" "started" "b1")), some (.terminal (.other "complete"))]] ∧
    ¬ OneStream lostMoves := by
  refine ⟨by decide +kernel, fun h => ?_⟩
  have hclosed := h.closed (lostMoves.take 6) (.step "mesh1" "node.create:n1" "started" "b1") (lostMoves.drop 7) rfl
    (by decide +kernel)
  exact absurd hclosed (by decide +kernel)

/-- A frame, the role lost, the frame once more and a terminal, with a reader that waits for each. -/
def keptMoves : List (Move String) :=
  [.reader, .next 0, .next 0, .push (.step "mesh1" "node.create:n1" "started" "b1"), .notifyWaiters, .next 0, .next 0,
    .loseFabricPrimary ⟨"the role moved", none⟩, .push (.step "mesh1" "node.create:n1" "started" "b1"),
    .finish (.other "complete"), .notifyWaiters, .next 0, .next 0, .next 0]

theorem keptMoves_one_stream :
    (Drive.after keptMoves).readers.map DriveReader.reads =
      [[some (.frame (.step "mesh1" "node.create:n1" "started" "b1")), some (.terminal (.other "complete")), none]] ∧
    OneStream keptMoves :=
  ⟨by decide +kernel, one_stream keptMoves (by decide +kernel)⟩

end Streams

end DistributedMesh.DriveReads
