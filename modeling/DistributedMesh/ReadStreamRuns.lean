import DistributedMesh.GuardedRuns
import DistributedMesh.ReadStreamRows

namespace DistributedMesh.ReadStreams

variable {N M F C Q X : Type} {codec : Codec N M F C}

namespace Serving

variable {s : Serving N M F C} {frame : ReadReply N M F C} {written : Written} {changed : Bool}

/-- What owing a frame does: the frame is owed at the next position, or is owed to a caller that drops the invocation,
or nothing is owed. -/
inductive Puts (s : Serving N M F C) (frame : ReadReply N M F C) : Serving N M F C × Option SinkError → Prop
  | owed (position : s.frames < UInt32.size) (isOwed : s.isOwed = true) : Puts s frame
      ({ s with owed := s.owed ++ [frame], unacked := s.unacked + 1, frames := s.frames + 1 }, none)
  | dropped (isOwed : s.isOwed = true) (reason : String) : Puts s frame
      ({ s with owed := s.owed ++ [frame], isOwed := false, unacked := 0, callerGone := some reason, waits := false },
        some (.callerGone reason))
  | gone (isOwed : s.isOwed = false) (reason : String) : Puts s frame
      ({ s with callerGone := some reason, waits := false }, some (.callerGone reason))
  | past (position : UInt32.size ≤ s.frames) : Puts s frame (s, some (.order .pastLastPosition))

theorem put_puts (s : Serving N M F C) (frame : ReadReply N M F C) (written : Written) : Puts s frame (s.put frame written) := by
  simp only [put]
  split
  next hpast => exact .past hpast
  next hposition =>
    split
    next hgone => exact .gone hgone _
    next howed =>
      have howed : s.isOwed = true := by simpa using howed
      split
      next => exact .dropped howed _
      next => exact .owed (by omega) howed

/-- What writing a frame does: the handler waits, the frame is put, or it is not. -/
inductive Writes (codec : Codec N M F C) (s : Serving N M F C) (frame : ReadReply N M F C) :
    Serving N M F C × Option (Option SinkError) → Prop
  | waits : NodeRpc.maxReorderPositions ≤ s.unacked → Writes codec s frame ({ s with waits := true }, none)
  | put {order : OrderState} {out : Serving N M F C × Option SinkError} {size : Nat} (encoded : codec.size frame = some size)
      (fits : size ≤ maxReplyFrameBytes) (window : s.unacked < NodeRpc.maxReorderPositions)
      (admitted : s.order.admit frame.frameKind = .ok order)
      (puts : Puts { s with order := order, waits := false } frame out) : Writes codec s frame (out.1, some out.2)
  | gone (isOwed : s.isOwed = false) (reason : String) : Writes codec s frame
      ({ s with callerGone := some reason, waits := false }, some (some (.callerGone reason)))
  | unwritten (waits : Bool) (e : SinkError) : Writes codec s frame ({ s with waits := waits }, some (some e))

theorem write_writes (codec : Codec N M F C) (s : Serving N M F C) (frame : ReadReply N M F C) (written : Written) (changed : Bool) :
    Writes codec s frame (s.write codec frame written changed) := by
  simp only [write]
  split
  next => exact .unwritten s.waits _
  next size hsize =>
    split
    next => exact .unwritten s.waits _
    next =>
      split
      next => exact .unwritten s.waits _
      next hfits =>
        split
        next hgone => exact .gone hgone.2.1 _
        next =>
          split
          next hfull => exact .waits hfull
          next hwindow =>
            split
            next => exact .unwritten false _
            next order hadmitted =>
              exact .put hsize (by omega) (by omega) hadmitted (put_puts _ frame written)

variable {read : String} {frames : List (ReadReply N M F C)} {rows count : Nat}

/-- A refusal that says why the stream could not be started. -/
def Unstarted (codec : Codec N M F C) (text : String) : Prop :=
  ∃ e, text = "the caller left before the read started: " ++ codec.debug e

/-- Where a read whose rows were packed stands: what was owed is a beginning of its stream, unless the stream could not
be started and the one frame owed says so. -/
inductive Stands (codec : Codec N M F C) (read : String) (frames : List (ReadReply N M F C)) (rows count : Nat) (s : Serving N M F C) : Prop
  | starting (handler : s.handler = .starting read frames rows count) (order : s.order = .notStarted) (owed : s.owed = [])
  | sending {sent rest : List (ReadReply N M F C)} (split : frames = sent ++ rest)
      (handler : s.handler = .sending rest rows count) (order : s.order = .streaming) (owed : s.owed = .started read :: sent)
  | ending (handler : s.handler = .returned (.ended rows count)) (order : s.order = .streaming)
      (owed : s.owed = .started read :: frames)
  | refusing {text : String} (handler : s.handler = .returned (.notReady text))
      (order : s.order = .notStarted ∧ s.owed = [] ∧ Unstarted codec text ∨ s.order = .streaming)
      (owed : s.owed <+: .started read :: frames)
  | joined (handler : s.handler = .joined)
      (owed : s.owed <+: .started read :: (frames ++ [ReadReply.ended rows count]) ∨
        ∃ text, s.owed = [.notReady text] ∧ Unstarted codec text)

/-- A write that failed: nothing more is owed, or the frame itself, and the handler says in a refusal why. -/
structure Fails (s : Serving N M F C) (frame : ReadReply N M F C) (text : String) (s' : Serving N M F C) : Prop where
  handler : s'.handler = .returned (.notReady text)
  owed : s'.order = s.order ∧ s'.owed = s.owed ∨
    s.order.admit frame.frameKind = .ok s'.order ∧ (s'.owed = s.owed ∨ s'.owed = s.owed ++ [frame])

theorem Writes.failed {s' : Serving N M F C} {e : SinkError} (h : Writes codec s frame (s', some (some e))) :
    s'.handler = s.handler ∧ (s'.order = s.order ∧ s'.owed = s.owed ∨
      s.order.admit frame.frameKind = .ok s'.order ∧ (s'.owed = s.owed ∨ s'.owed = s.owed ++ [frame])) := by
  generalize hout : (s', some (some e)) = out at h
  cases h with
  | waits => cases hout
  | put encoded fits window admitted puts =>
    cases puts with
    | owed => cases hout
    | dropped | gone | past =>
      cases hout
      exact ⟨rfl, .inr ⟨admitted, by simp⟩⟩
  | gone | unwritten =>
    cases hout
    exact ⟨rfl, .inl ⟨rfl, rfl⟩⟩

theorem Writes.done {s' : Serving N M F C} (h : Writes codec s frame (s', some none)) :
    s'.handler = s.handler ∧ s.order.admit frame.frameKind = .ok s'.order ∧ s'.owed = s.owed ++ [frame] := by
  generalize hout : (s', some (none : Option SinkError)) = out at h
  cases h with
  | put encoded fits window admitted puts =>
    cases puts with
    | owed =>
      cases hout
      exact ⟨rfl, admitted, rfl⟩
    | dropped | gone | past => cases hout
  | waits | gone | unwritten => cases hout

theorem Writes.waiting {s' : Serving N M F C} (h : Writes codec s frame (s', none)) : s' = { s with waits := true } := by
  generalize hout : (s', (none : Option (Option SinkError))) = out at h
  cases h with
  | waits =>
    cases hout
    rfl
  | put | gone | unwritten => cases hout

theorem sends_cases (codec : Codec N M F C) (s : Serving N M F C) (frame : ReadReply N M F C) (goesOn : Handler N M F C)
    (left : String) (written : Written) (changed : Bool) :
    s.sends codec frame goesOn left written changed = { s with waits := true } ∨
      ((s.sends codec frame goesOn left written changed).handler = goesOn ∧
        s.order.admit frame.frameKind = .ok (s.sends codec frame goesOn left written changed).order ∧
        (s.sends codec frame goesOn left written changed).owed = s.owed ++ [frame]) ∨
      ∃ e, Fails s frame (left ++ codec.debug e) (s.sends codec frame goesOn left written changed) := by
  have hwrites := write_writes codec s frame written changed
  simp only [sends]
  generalize s.write codec frame written changed = out at hwrites
  obtain ⟨s₁, result⟩ := out
  cases result with
  | none => exact .inl hwrites.waiting
  | some result =>
    cases result with
    | none =>
      obtain ⟨-, horder, howed⟩ := hwrites.done
      exact .inr (.inl ⟨rfl, horder, howed⟩)
    | some e => exact .inr (.inr ⟨e, rfl, hwrites.failed.2⟩)

theorem admit_started {order order' : OrderState} (h : order.admit .started = .ok order') : order' = .streaming := by
  cases order <;> cases h
  rfl

theorem admit_data {order order' : OrderState} (h : order.admit .data = .ok order') : order' = .streaming := by
  cases order <;> cases h
  rfl

theorem Fails.stands (hdata : ∀ frame ∈ frames, frame.frameKind = .data) {s' : Serving N M F C} {text : String}
    (h : Fails s frame text s') {rest : List (ReadReply N M F C)} (hsplit : .started read :: frames = s.owed ++ frame :: rest)
    (horder : s.order = .notStarted ∧ s.owed = [] ∧ Unstarted codec text ∨ s.order = .streaming) :
    Stands codec read frames rows count s' := by
  have hkind : frame.frameKind = .started ∨ frame.frameKind = .data := by
    have hmem : frame ∈ .started read :: frames := by rw [hsplit]; simp
    rcases List.mem_cons.mp hmem with rfl | hmem
    · exact .inl rfl
    · exact .inr (hdata frame hmem)
  have hbefore : s.owed <+: .started read :: frames := by
    rw [hsplit]
    exact List.prefix_append _ _
  have hafter : s.owed ++ [frame] <+: .started read :: frames := by
    rw [hsplit]
    exact ⟨rest, by simp⟩
  rcases h.owed with ⟨horder', howed⟩ | ⟨hadmitted, howed⟩
  · refine .refusing h.handler ?_ ?_
    · rw [horder', howed]
      exact horder
    · rw [howed]
      exact hbefore
  · refine .refusing h.handler (.inr ?_) ?_
    · rcases hkind with hkind | hkind
      · exact admit_started (hkind ▸ hadmitted)
      · exact admit_data (hkind ▸ hadmitted)
    · rcases howed with howed | howed <;> rw [howed]
      · exact hbefore
      · exact hafter

/-- The returned frame ends the stream where it may, and is owed then unless the response is not. -/
theorem finish_cases (codec : Codec N M F C) (s : Serving N M F C) (last : ReadReply N M F C) (written : Written) :
    (s.finish codec last written).handler = .joined ∧ ((s.finish codec last written).owed = s.owed ∨
      ((s.finish codec last written).owed = s.owed ++ [last] ∧
        ∃ order, s.order.finalFrame last.frameKind = .ok order)) := by
  simp only [finish]
  split
  next => exact ⟨rfl, .inl rfl⟩
  next =>
    split
    next => exact ⟨rfl, .inl rfl⟩
    next order hfinal =>
      refine ⟨rfl, ?_⟩
      have hputs := put_puts { s with order := order } last written
      generalize ({ s with order := order } : Serving N M F C).put last written = out at hputs
      cases hputs with
      | owed | dropped => exact .inr ⟨rfl, order, hfinal⟩
      | gone | past => exact .inl rfl

theorem Stands.next (hdata : ∀ frame ∈ frames, frame.frameKind = .data) (h : Stands codec read frames rows count s)
    (written : Written) (changed : Bool) : Stands codec read frames rows count (s.next codec written changed) := by
  have hstream : .started read :: frames <+: .started read :: (frames ++ [ReadReply.ended rows count]) :=
    (List.prefix_cons_inj _).mpr (List.prefix_append _ _)
  cases h with
  | starting handler order owed =>
    simp only [Serving.next, handler]
    obtain heq | ⟨hhandler, hadmitted, howed⟩ | ⟨e, hfails⟩ := sends_cases codec s (.started read)
      (.sending frames rows count) "the caller left before the read started: " written changed
    · rw [heq]
      exact .starting handler order owed
    · exact .sending (List.nil_append _).symm hhandler (admit_started hadmitted) (by rw [howed, owed]; rfl)
    · exact hfails.stands hdata (by rw [owed]; rfl) (.inl ⟨order, owed, e, rfl⟩)
  | @sending sent rest split handler order owed =>
    cases rest with
    | nil =>
      simp only [Serving.next, handler]
      exact .ending rfl order (by rw [split, List.append_nil]; exact owed)
    | cons frame rest =>
      simp only [Serving.next, handler]
      have hkind : frame.frameKind = .data := hdata frame (by rw [split]; simp)
      obtain heq | ⟨hhandler, hadmitted, howed⟩ | ⟨e, hfails⟩ := sends_cases codec s frame (.sending rest rows count)
        "the caller left during the read: " written changed
      · rw [heq]
        exact .sending split handler order owed
      · have hsplit : frames = (sent ++ [frame]) ++ rest := by rw [split]; simp
        refine .sending hsplit hhandler (admit_data (hkind ▸ hadmitted)) ?_
        rw [howed, owed]
        rfl
      · exact hfails.stands hdata (by rw [owed, split]; rfl) (.inr order)
  | ending handler order owed =>
    have heq : s.next codec written changed = s.finish codec (.ended rows count) written := by
      simp only [Serving.next, handler]
    rw [heq]
    obtain ⟨hjoined, howed | ⟨howed, -⟩⟩ := finish_cases codec s (.ended rows count) written
    · refine .joined hjoined (.inl ?_)
      rw [howed, owed]
      exact hstream
    · refine .joined hjoined (.inl ?_)
      rw [howed, owed]
      exact List.prefix_rfl
  | @refusing text handler order owed =>
    have heq : s.next codec written changed = s.finish codec (.notReady text) written := by
      simp only [Serving.next, handler]
    rw [heq]
    obtain ⟨hjoined, howed | ⟨howed, final, hfinal⟩⟩ := finish_cases codec s (.notReady text) written
    · refine .joined hjoined (.inl ?_)
      rw [howed]
      exact owed.trans hstream
    · rcases order with ⟨-, hnil, hunstarted⟩ | hstreaming
      · refine .joined hjoined (.inr ⟨text, ?_, hunstarted⟩)
        rw [howed, hnil]
        rfl
      · -- a stream that has started is not ended by a refusal
        rw [hstreaming] at hfinal
        cases hfinal
  | joined handler owed =>
    have heq : s.next codec written changed = s := by simp only [Serving.next, handler]
    rw [heq]
    exact .joined handler owed

end Serving

section Caller

variable {rows : Rows N M F C} {frames : List (ReadReply N M F C)} {read : String} {served count : Nat}

/-- The frames a caller takes, one after another. -/
def Reading.takes (reading : Reading N M F C X) (frames : List (ReadReply N M F C)) : Reading N M F C X :=
  frames.foldl Reading.frame reading

theorem Reading.takes_append (reading : Reading N M F C X) (xs ys : List (ReadReply N M F C)) :
    reading.takes (xs ++ ys) = (reading.takes xs).takes ys := List.foldl_append

theorem Reading.takes_ended (result : Except (ReadEnd N M F C X) (Rows N M F C)) (frames : List (ReadReply N M F C)) :
    (Reading.ended result).takes frames = .ended result := by
  induction frames with
  | nil => rfl
  | cons frame frames ih => exact ih

theorem frame_data (rows : Rows N M F C) {frame : ReadReply N M F C} (hdata : frame.frameKind = .data) (taken : Nat) :
    (Reading.reading (X := X) rows taken .streaming).frame frame = match rows.take frame with
      | none => .ended (.error .otherEntity)
      | some rows => .reading rows ((taken + 1) % UInt32.size) .streaming := by
  cases frame <;> first | rfl | cases hdata

/-- A caller in the stream takes data frames, or meets one of another entity. -/
theorem takes_data (rows : Rows N M F C) (hdata : ∀ frame ∈ frames, frame.frameKind = .data) {taken : Nat} (htaken : taken < UInt32.size) :
    (Reading.reading (X := X) rows taken .streaming).takes frames = match rows.takeAll frames with
      | none => .ended (.error .otherEntity)
      | some rows => .reading rows ((taken + frames.length) % UInt32.size) .streaming := by
  induction frames generalizing rows taken with
  | nil => simp [Reading.takes, Rows.takeAll, Nat.mod_eq_of_lt htaken]
  | cons frame frames ih =>
    have hfirst := frame_data (X := X) rows (hdata frame List.mem_cons_self) taken
    change ((Reading.reading rows taken .streaming).frame frame).takes frames = _
    rw [hfirst, Rows.takeAll]
    cases htake : rows.take frame with
    | none => exact Reading.takes_ended _ _
    | some rows' =>
      have hlt : (taken + 1) % UInt32.size < UInt32.size := Nat.mod_lt _ (by decide)
      have hrest := ih rows' (fun frame hframe => hdata frame (List.mem_cons_of_mem _ hframe)) hlt
      have hcount : ((taken + 1) % UInt32.size + frames.length) % UInt32.size =
          (taken + (frame :: frames).length) % UInt32.size := by
        rw [Nat.mod_add_mod, List.length_cons]
        congr 1
        omega
      rw [hcount] at hrest
      exact hrest

/-- The frames of a read's whole stream. -/
def streamOf (read : String) (frames : List (ReadReply N M F C)) (served count : Nat) : List (ReadReply N M F C) :=
  .started read :: (frames ++ [ReadReply.ended served count])

/-- What a caller makes of a beginning of a stream: it reads on, it met rows of another entity, or it has the whole
stream and answers its rows if they are as many as the stream says. -/
theorem takes_stream (rows : Rows N M F C) (hdata : ∀ frame ∈ frames, frame.frameKind = .data) {taken : List (ReadReply N M F C)}
    (h : taken <+: streamOf read frames served count) :
    (∃ held k order, (Reading.reading (X := X) rows 0 .notStarted).takes taken = .reading held k order) ∨
      (Reading.reading (X := X) rows 0 .notStarted).takes taken = .ended (.error .otherEntity) ∨
      (taken = streamOf read frames served count ∧ ∃ held, rows.takeAll frames = some held ∧
        (Reading.reading (X := X) rows 0 .notStarted).takes taken =
          if served ≠ held.len ∨ count ≠ frames.length % UInt32.size then
            .ended (.error (.miscounted served count held.len (frames.length % UInt32.size)))
          else .ended (.ok held)) := by
  rcases List.prefix_cons_iff.mp h with rfl | ⟨rest, rfl, hrest⟩
  · exact .inl ⟨rows, 0, .notStarted, rfl⟩
  · have hstarted : (Reading.reading (X := X) rows 0 .notStarted).takes (.started read :: rest) =
        (Reading.reading (X := X) rows 0 .streaming).takes rest := rfl
    rw [hstarted]
    rcases List.prefix_concat_iff.mp hrest with rfl | hrest
    · rw [Reading.takes_append, takes_data _ hdata (by decide)]
      cases htake : rows.takeAll frames with
      | none =>
        right
        left
        exact Reading.takes_ended _ _
      | some held =>
        right
        right
        refine ⟨rfl, held, rfl, ?_⟩
        rw [Nat.zero_add]
        rfl
    · rw [takes_data _ (fun frame hframe => hdata frame (hrest.subset hframe)) (by decide)]
      cases rows.takeAll rest with
      | none => exact .inr (.inl rfl)
      | some held => exact .inl ⟨held, _, _, rfl⟩

theorem takes_refusal {reply : ReadReply N M F C} {kind : Code} (hkind : reply.frameKind = .refusal kind) :
    (Reading.reading (X := X) rows 0 .notStarted).takes [reply] = .ended (.error (.rejected reply)) := by
  change (Reading.reading (X := X) rows 0 .notStarted).frame reply = _
  cases reply <;> first | rfl | cases hkind

end Caller

section System

variable {rows : Rows N M F C} {handler : Handler N M F C} {c : ReadCall N M F C X} {s t : Serving N M F C}

/-- Where a read that is refused stands. -/
inductive Serving.Refuses (reply : ReadReply N M F C) (s : Serving N M F C) : Prop
  | returned (handler : s.handler = .returned reply) (order : s.order = .notStarted) (owed : s.owed = [])
  | joined (handler : s.handler = .joined)
      (owed : s.owed = [] ∨ s.owed = [reply] ∧ ∃ kind, reply.frameKind = .refusal kind)

/-- Where a read stands whose handler began as `begun`. -/
def Serving.Serves (codec : Codec N M F C) (begun : Handler N M F C) (s : Serving N M F C) : Prop :=
  match begun with
  | .starting read frames rows count => (∀ frame ∈ frames, frame.frameKind = .data) → s.Stands codec read frames rows count
  | .returned reply => s.Refuses reply
  | _ => False

theorem Serving.Stands.same {read : String} {frames : List (ReadReply N M F C)} {served count : Nat}
    (h : s.Stands codec read frames served count) (hhandler : t.handler = s.handler) (horder : t.order = s.order)
    (howed : t.owed = s.owed) : t.Stands codec read frames served count := by
  cases h with
  | starting handler order owed => exact .starting (hhandler.trans handler) (horder.trans order) (howed.trans owed)
  | sending split handler order owed =>
    exact .sending split (hhandler.trans handler) (horder.trans order) (howed.trans owed)
  | ending handler order owed => exact .ending (hhandler.trans handler) (horder.trans order) (howed.trans owed)
  | refusing handler order owed =>
    refine .refusing (hhandler.trans handler) ?_ (howed ▸ owed)
    rw [horder, howed]
    exact order
  | joined handler owed => exact .joined (hhandler.trans handler) (howed ▸ owed)

theorem Serving.Serves.same (h : s.Serves codec handler) (hhandler : t.handler = s.handler) (horder : t.order = s.order)
    (howed : t.owed = s.owed) : t.Serves codec handler := by
  cases handler with
  | starting read frames served count => exact fun hdata => (h hdata).same hhandler horder howed
  | returned reply =>
    cases h with
    | returned handler order owed => exact .returned (hhandler.trans handler) (horder.trans order) (howed.trans owed)
    | joined handler owed => exact .joined (hhandler.trans handler) (howed ▸ owed)
  | sending | joined => exact h

theorem Serving.Serves.next (h : s.Serves codec handler) (written : Written) (changed : Bool) :
    (s.next codec written changed).Serves codec handler := by
  cases handler with
  | starting read frames served count => exact fun hdata => (h hdata).next hdata written changed
  | returned reply =>
    cases h with
    | returned hhandler order owed =>
      have heq : s.next codec written changed = s.finish codec reply written := by simp only [Serving.next, hhandler]
      rw [heq]
      obtain ⟨hjoined, howed | ⟨howed, final, hfinal⟩⟩ := Serving.finish_cases codec s reply written
      · exact .joined hjoined (.inl (howed.trans owed))
      · refine .joined hjoined (.inr ⟨by rw [howed, owed]; rfl, ?_⟩)
        rw [order] at hfinal
        cases hkind : reply.frameKind with
        | refusal kind => exact ⟨kind, rfl⟩
        | started | data | terminal =>
          rw [hkind] at hfinal
          cases hfinal
    | joined hhandler owed =>
      have heq : s.next codec written changed = s := by simp only [Serving.next, hhandler]
      rw [heq]
      exact .joined hhandler owed
  | sending | joined => exact absurd h id

theorem owed_next (codec : Codec N M F C) (s : Serving N M F C) (written : Written) (changed : Bool) :
    s.owed <+: (s.next codec written changed).owed := by
  have hsends : ∀ (frame : ReadReply N M F C) (goesOn : Handler N M F C) (left : String),
      s.owed <+: (s.sends codec frame goesOn left written changed).owed := by
    intro frame goesOn left
    obtain heq | ⟨-, -, howed⟩ | ⟨e, hfails⟩ := Serving.sends_cases codec s frame goesOn left written changed
    · exact ⟨[], by rw [List.append_nil, heq]⟩
    · rw [howed]
      exact List.prefix_append _ _
    · have howed : (s.sends codec frame goesOn left written changed).owed = s.owed ∨
          (s.sends codec frame goesOn left written changed).owed = s.owed ++ [frame] := by
        rcases hfails.owed with ⟨-, howed⟩ | ⟨-, howed⟩
        · exact .inl howed
        · exact howed
      rcases howed with howed | howed
      · exact ⟨[], by rw [List.append_nil, howed]⟩
      · rw [howed]
        exact List.prefix_append _ _
  cases hhandler : s.handler with
  | starting read frames served count =>
    simp only [Serving.next, hhandler]
    exact hsends _ _ _
  | sending frames served count =>
    cases frames with
    | nil =>
      simp only [Serving.next, hhandler]
      exact List.prefix_rfl
    | cons frame frames =>
      simp only [Serving.next, hhandler]
      exact hsends _ _ _
  | returned last =>
    simp only [Serving.next, hhandler]
    obtain ⟨-, howed | ⟨howed, -⟩⟩ := Serving.finish_cases codec s last written
    · exact ⟨[], by rw [List.append_nil, howed]⟩
    · rw [howed]
      exact List.prefix_append _ _
  | joined =>
    simp only [Serving.next, hhandler]
    exact List.prefix_rfl

/-- The two parties of a read: the caller has taken the frames handed to it, or its stream has ended. -/
structure Agrees (codec : Codec N M F C) (rows : Rows N M F C) (handler : Handler N M F C) (c : ReadCall N M F C X) :
    Prop where
  serves : c.serving.Serves codec handler
  handed : c.handed ≤ c.serving.owed.length
  reads : c.reading = (Reading.reading rows 0 .notStarted).takes (c.serving.owed.take c.handed) ∨
    ∃ cause, c.reading = .ended (.error (.failed (.ended cause)))

/-- A step of the server leaves what the caller has. -/
theorem Agrees.serving (h : Agrees codec rows handler c) (hserves : t.Serves codec handler) (howed : c.serving.owed <+: t.owed) :
    Agrees codec rows handler { c with serving := t } := by
  refine ⟨hserves, h.handed.trans howed.length_le, ?_⟩
  have htake : t.owed.take c.handed = c.serving.owed.take c.handed := by
    obtain ⟨more, hmore⟩ := howed
    rw [← hmore, List.take_append_of_le_length h.handed]
  rcases h.reads with hreads | hfailed
  · left
    change c.reading = (Reading.reading rows 0 .notStarted).takes (t.owed.take c.handed)
    rw [htake]
    exact hreads
  · exact .inr hfailed

theorem Agrees.step (h : Agrees codec rows handler c) (e : ReadEvent X) : Agrees codec rows handler (c.step codec e) := by
  cases e with
  | next written changed => exact h.serving (h.serves.next written changed) (owed_next codec _ written changed)
  | acked frames => exact h.serving (h.serves.same rfl rfl rfl) List.prefix_rfl
  | dropped => exact h.serving (h.serves.same rfl rfl rfl) List.prefix_rfl
  | deliver =>
    simp only [ReadCall.step]
    split
    next frame hframe =>
      have hlt : c.handed < c.serving.owed.length := (List.getElem?_eq_some_iff.mp hframe).1
      refine ⟨h.serves, hlt, ?_⟩
      rcases h.reads with hreads | ⟨cause, hfailed⟩
      · left
        change c.reading.frame frame = (Reading.reading rows 0 .notStarted).takes (c.serving.owed.take (c.handed + 1))
        rw [List.take_add_one, hframe, Reading.takes_append, ← hreads]
        rfl
      · right
        refine ⟨cause, ?_⟩
        change c.reading.frame frame = _
        rw [hfailed]
        rfl
    next => exact h
  | fail cause =>
    refine ⟨h.serves, h.handed, ?_⟩
    change c.reading.fail cause = _ ∨ ∃ cause', c.reading.fail cause = _
    cases hreading : c.reading with
    | reading held taken order => exact .inr ⟨cause, rfl⟩
    | ended result =>
      have hreads := h.reads
      rw [hreading] at hreads
      exact hreads

theorem agrees_start (rows : Rows N M F C) {handler : Handler N M F C} (h : (Serving.start handler).Serves codec handler) :
    Agrees codec rows handler (ReadCall.start (X := X) handler rows) :=
  ⟨h, Nat.zero_le _, .inl rfl⟩

theorem frameKind_frame (batch : List (Row N M F C)) : (Row.frame batch).frameKind = .data := by
  simp only [Row.frame]
  split <;> rfl

/-- What a service answers is served as a stream of its rows, or refused. -/
theorem answer_cases (codec : Codec N M F C) (read : String) (result : Except (ReadReply N M F C) (Rows N M F C)) :
    (∃ reply, Serving.answer codec read result = .returned reply) ∨
      ∃ rows frames, result = .ok rows ∧ readFrames codec rows.intoRows read = .ok frames ∧
        Serving.answer codec read result = .starting read frames (rows.len % UInt32.size) (frames.length % UInt32.size) ∧
        ∀ frame ∈ frames, frame.frameKind = .data := by
  cases result with
  | error reply => exact .inl ⟨reply, rfl⟩
  | ok rows =>
    simp only [Serving.answer]
    cases hframes : readFrames codec rows.intoRows read with
    | error tooLong => exact .inl ⟨tooLong, rfl⟩
    | ok frames =>
      refine .inr ⟨rows, frames, rfl, hframes, rfl, fun frame hframe => ?_⟩
      obtain ⟨batches, rfl, -⟩ := readFrames_batches hframes
      obtain ⟨batch, -, rfl⟩ := List.mem_map.mp hframe
      exact frameKind_frame batch

theorem serves_answer (codec : Codec N M F C) (read : String) (result : Except (ReadReply N M F C) (Rows N M F C)) :
    (Serving.start (Serving.answer codec read result)).Serves codec (Serving.answer codec read result) := by
  obtain ⟨reply, heq⟩ | ⟨rows, frames, -, -, heq, -⟩ := answer_cases codec read result
  · rw [heq]
    exact .returned rfl rfl rfl
  · rw [heq]
    exact fun _ => .starting rfl rfl rfl

theorem agrees_run (codec : Codec N M F C) (read : String) (result : Except (ReadReply N M F C) (Rows N M F C))
    (rows : Rows N M F C) (events : List (ReadEvent X)) :
    Agrees codec rows (Serving.answer codec read result)
      ((ReadCall.start (Serving.answer codec read result) rows).run codec events) :=
  GuardedRuns.invariant_run (I := Agrees codec rows (Serving.answer codec read result)) (fun _ e h => h.step e)
    (agrees_start rows (serves_answer codec read result)) events

/-- What a caller of a read that is served as a stream can have. -/
theorem Agrees.of_starting {read : String} {frames : List (ReadReply N M F C)} {served count : Nat}
    (h : Agrees codec rows (.starting read frames served count) c) (hdata : ∀ frame ∈ frames, frame.frameKind = .data) :
    (∃ held k order, c.reading = .reading held k order) ∨ c.reading = .ended (.error .otherEntity) ∨
      (c.serving.owed.take c.handed = streamOf read frames served count ∧ ∃ held, rows.takeAll frames = some held ∧
        c.reading = if served ≠ held.len ∨ count ≠ frames.length % UInt32.size then
            .ended (.error (.miscounted served count held.len (frames.length % UInt32.size)))
          else .ended (.ok held)) ∨
      (∃ text, c.reading = .ended (.error (.rejected (.notReady text))) ∧ c.serving.owed = [.notReady text] ∧
        Serving.Unstarted codec text) ∨
      ∃ cause, c.reading = .ended (.error (.failed (.ended cause))) := by
  rcases h.reads with hreads | hfailed
  · have howed : c.serving.owed <+: streamOf read frames served count ∨
        ∃ text, c.serving.owed = [.notReady text] ∧ Serving.Unstarted codec text := by
      have hstream : .started read :: frames <+: streamOf read frames served count :=
        (List.prefix_cons_inj _).mpr (List.prefix_append _ _)
      cases h.serves hdata with
      | starting _ _ owed => exact .inl (by rw [owed]; exact List.nil_prefix)
      | sending split _ _ owed =>
        left
        rw [owed, split]
        exact (List.prefix_cons_inj _).mpr ⟨_, by rw [List.append_assoc]⟩
      | ending _ _ owed =>
        left
        rw [owed]
        exact hstream
      | refusing _ _ owed => exact .inl (owed.trans hstream)
      | joined _ owed => exact owed
    rcases howed with howed | ⟨text, howed, hunstarted⟩
    · rw [hreads]
      obtain hreading | hother | hwhole := takes_stream (X := X) rows hdata
        ((List.take_prefix c.handed c.serving.owed).trans howed)
      · exact .inl hreading
      · exact .inr (.inl hother)
      · exact .inr (.inr (.inl hwhole))
    · rw [howed] at hreads
      cases hhanded : c.handed with
      | zero =>
        rw [hhanded] at hreads
        exact .inl ⟨_, _, _, hreads⟩
      | succ k =>
        rw [hhanded] at hreads
        have htake : ([.notReady text] : List (ReadReply N M F C)).take (k + 1) = [.notReady text] := by simp
        rw [htake] at hreads
        exact .inr (.inr (.inr (.inl ⟨text, hreads.trans (takes_refusal rfl), howed, hunstarted⟩)))
  · exact .inr (.inr (.inr (.inr hfailed)))

/-- What a caller of a read that is refused can have. -/
theorem Agrees.of_returned {reply : ReadReply N M F C} (h : Agrees codec rows (.returned reply) c) :
    (∃ held k order, c.reading = .reading held k order) ∨ c.reading = .ended (.error (.rejected reply)) ∨
      ∃ cause, c.reading = .ended (.error (.failed (.ended cause))) := by
  rcases h.reads with hreads | hfailed
  · have howed : c.serving.owed = [] ∨ c.serving.owed = [reply] ∧ ∃ kind, reply.frameKind = .refusal kind := by
      cases h.serves with
      | returned _ _ owed => exact .inl owed
      | joined _ owed => exact owed
    rcases howed with howed | ⟨howed, kind, hkind⟩
    · rw [howed, List.take_nil] at hreads
      exact .inl ⟨_, _, _, hreads⟩
    · rw [howed] at hreads
      cases hhanded : c.handed with
      | zero =>
        rw [hhanded] at hreads
        exact .inl ⟨_, _, _, hreads⟩
      | succ k =>
        rw [hhanded] at hreads
        have htake : [reply].take (k + 1) = [reply] := by simp
        rw [htake] at hreads
        exact .inr (.inl (hreads.trans (takes_refusal hkind)))
  · exact .inr (.inr hfailed)

theorem exists_of_answered {req : ReadRequest Q} {result : Except (ReadEnd N M F C X) (Rows N M F C)} {r : Rows N M F C}
    (h : answered req result = .ok r) : ∃ taken, result = .ok taken := by
  cases result with
  | ok taken => exact ⟨taken, rfl⟩
  | error e => cases req <;> cases h

/-- In every run of a read the rows its caller answers are the rows the service answered, every one of them and in
their order: no part of a list is ever taken for the list. -/
theorem read_answers_served (readRows : Entity → Option (String × String) → Q → Except (ReadReply N M F C) (Rows N M F C))
    (req : ReadRequest Q) {start : Rows N M F C} (hempty : emptyRows req = some start) (events : List (ReadEvent X))
    {result : Except (ReadEnd N M F C X) (Rows N M F C)}
    (hended : ((ReadCall.start (Serving.answer codec req.op (Serving.rowsOf readRows req)) start).run codec events).reading =
      .ended result) {r : Rows N M F C} (hr : answered req result = .ok r) :
    ∃ rows, Serving.rowsOf readRows req = .ok rows ∧ r.intoRows = rows.intoRows := by
  have hagrees := agrees_run codec req.op (Serving.rowsOf readRows req) start events
  generalize (ReadCall.start (Serving.answer codec req.op (Serving.rowsOf readRows req)) start).run codec events = c
    at hagrees hended
  obtain ⟨taken, rfl⟩ := exists_of_answered hr
  obtain ⟨reply, heq⟩ | ⟨rows, frames, hrows, hframes, heq, hdata⟩ := answer_cases codec req.op (Serving.rowsOf readRows req)
  · rw [heq] at hagrees
    obtain ⟨held, k, order, hreading⟩ | hreading | ⟨cause, hreading⟩ := hagrees.of_returned <;>
    · rw [hended] at hreading
      cases hreading
  · rw [heq] at hagrees
    refine ⟨rows, hrows, ?_⟩
    obtain ⟨held, k, order, hreading⟩ | hreading | ⟨-, held, htaken, hreading⟩ | ⟨text, hreading, -⟩ | ⟨cause, hreading⟩ :=
      hagrees.of_starting hdata
    · rw [hended] at hreading
      cases hreading
    · rw [hended] at hreading
      cases hreading
    · rw [hended] at hreading
      split at hreading
      next => cases hreading
      next =>
        cases hreading
        exact answered_rows hempty hframes htaken hr
    · rw [hended] at hreading
      cases hreading
    · rw [hended] at hreading
      cases hreading

/-- A codec whose every frame is short, over nodes named by numbers. -/
def shortCodec : Codec Nat Unit Unit Unit := ⟨fun _ => some 1, ⟨toString, fun _ => "", fun _ => "", fun _ => ""⟩, fun _ => ""⟩

/-- A read of two nodes, served and delivered whole. -/
theorem read_answers_served_two :
    let c := (ReadCall.start (X := Unit) (Serving.answer shortCodec "node.get" (.ok (.nodes [4, 2]))) (.nodes [])).run shortCodec
      [.next .ok true, .next .ok true, .deliver, .next .ok true, .next .ok true, .deliver, .deliver]
    c.reading = .ended (.ok (.nodes [4, 2])) ∧ ∃ rows, Serving.rowsOf (fun _ _ _ => .ok (.nodes [4, 2]))
        (ReadRequest.get Entity.nodes ()) = (.ok rows : Except (ReadReply Nat Unit Unit Unit) _) ∧
      (Rows.nodes [4, 2] : Rows Nat Unit Unit Unit).intoRows = rows.intoRows := by
  intro c
  have hframes : readFrames shortCodec (Rows.nodes [4, 2]).intoRows "node.get" = .ok [.nodes [4, 2]] := by
    simp [readFrames, Chunking.packInOrder, measure, shortCodec, maxReplyFrameBytes, Rows.intoRows, Row.frame, Row.node?]
  have hanswer : Serving.answer shortCodec "node.get" (.ok (.nodes [4, 2])) = .starting "node.get" [.nodes [4, 2]] 2 1 := by
    simp only [Serving.answer, hframes]
    rfl
  have hended : c.reading = .ended (.ok (.nodes [4, 2])) := by
    change ((ReadCall.start (Serving.answer shortCodec "node.get" (.ok (.nodes [4, 2]))) _).run shortCodec _).reading = _
    rw [hanswer]
    rfl
  exact ⟨hended, read_answers_served (fun _ _ _ => .ok (.nodes [4, 2])) (.get .nodes ()) rfl _ hended rfl⟩

section Bounds

/-- The frames that are owed each fit, and no more of them are unacked than may be, but for the last. -/
structure Bounded (codec : Codec N M F C) (s : Serving N M F C) : Prop where
  window : s.unacked ≤ NodeRpc.maxReorderPositions ∨ s.handler = .joined ∧ s.unacked ≤ NodeRpc.maxReorderPositions + 1
  fits : ∀ frame ∈ s.owed, (codec.size frame).getD 0 ≤ maxReplyFrameBytes

variable {frame : ReadReply N M F C}

theorem mem_owed_of_puts {out : Serving N M F C × Option SinkError} (h : s.Puts frame out)
    (hframe : (codec.size frame).getD 0 ≤ maxReplyFrameBytes) (hfits : ∀ f ∈ s.owed, (codec.size f).getD 0 ≤ maxReplyFrameBytes) :
    ∀ f ∈ out.1.owed, (codec.size f).getD 0 ≤ maxReplyFrameBytes := by
  cases h with
  | owed | dropped =>
    intro f hf
    rcases List.mem_append.mp hf with hf | hf
    · exact hfits f hf
    · rw [List.mem_singleton.mp hf]
      exact hframe
  | gone | past => exact hfits

theorem unacked_of_puts {out : Serving N M F C × Option SinkError} (h : s.Puts frame out) :
    out.1.unacked ≤ s.unacked + 1 := by
  cases h with
  | owed => exact Nat.le_refl _
  | dropped => exact Nat.zero_le _
  | gone | past => exact Nat.le_succ _

theorem bounded_sends (h : Bounded codec s) (hactive : s.handler ≠ .joined) (frame : ReadReply N M F C) (goesOn : Handler N M F C)
    (left : String) (written : Written) (changed : Bool) :
    Bounded codec (s.sends codec frame goesOn left written changed) := by
  have hwindow : s.unacked ≤ NodeRpc.maxReorderPositions := by
    rcases h.window with hwindow | ⟨hjoined, -⟩
    · exact hwindow
    · exact absurd hjoined hactive
  have hwrites := Serving.write_writes codec s frame written changed
  have hout : (s.write codec frame written changed).1.unacked ≤ NodeRpc.maxReorderPositions ∧
      ∀ f ∈ (s.write codec frame written changed).1.owed, (codec.size f).getD 0 ≤ maxReplyFrameBytes := by
    generalize s.write codec frame written changed = out at hwrites
    cases hwrites with
    | waits => exact ⟨hwindow, h.fits⟩
    | put encoded fits window admitted puts =>
      refine ⟨(unacked_of_puts puts).trans window, ?_⟩
      exact mem_owed_of_puts puts (by rw [encoded]; exact fits) h.fits
    | gone | unwritten => exact ⟨hwindow, h.fits⟩
  simp only [Serving.sends]
  generalize s.write codec frame written changed = out at hout
  obtain ⟨s', result⟩ := out
  obtain ⟨hunacked, howed⟩ := hout
  cases result with
  | none => exact ⟨.inl hunacked, howed⟩
  | some result => cases result <;> exact ⟨.inl hunacked, howed⟩

theorem bounded_finish (h : Bounded codec s) (hactive : s.handler ≠ .joined) (last : ReadReply N M F C) (written : Written) :
    Bounded codec (s.finish codec last written) := by
  have hwindow : s.unacked ≤ NodeRpc.maxReorderPositions := by
    rcases h.window with hwindow | ⟨hjoined, -⟩
    · exact hwindow
    · exact absurd hjoined hactive
  simp only [Serving.finish]
  split
  next => exact ⟨.inl (Nat.zero_le _), h.fits⟩
  next hfits =>
    split
    next => exact ⟨.inl (Nat.zero_le _), h.fits⟩
    next order _ =>
      have hputs := Serving.put_puts { s with order := order } last written
      refine ⟨.inr ⟨rfl, ?_⟩, ?_⟩
      · exact (unacked_of_puts hputs).trans (Nat.succ_le_succ hwindow)
      · exact mem_owed_of_puts hputs (by omega) h.fits

theorem bounded_next (h : Bounded codec s) (written : Written) (changed : Bool) :
    Bounded codec (s.next codec written changed) := by
  cases hhandler : s.handler with
  | starting read frames served count =>
    simp only [Serving.next, hhandler]
    exact bounded_sends h (by rw [hhandler]; simp) _ _ _ written changed
  | sending frames served count =>
    cases frames with
    | nil =>
      simp only [Serving.next, hhandler]
      refine ⟨.inl ?_, h.fits⟩
      rcases h.window with hwindow | ⟨hjoined, -⟩
      · exact hwindow
      · rw [hhandler] at hjoined
        cases hjoined
    | cons frame frames =>
      simp only [Serving.next, hhandler]
      exact bounded_sends h (by rw [hhandler]; simp) _ _ _ written changed
  | returned last =>
    simp only [Serving.next, hhandler]
    exact bounded_finish h (by rw [hhandler]; simp) last written
  | joined =>
    simp only [Serving.next, hhandler]
    exact h

theorem Bounded.step {c : ReadCall N M F C X} (h : Bounded codec c.serving) (e : ReadEvent X) :
    Bounded codec (c.step codec e).serving := by
  cases e with
  | next written changed => exact bounded_next h written changed
  | acked frames =>
    refine ⟨?_, h.fits⟩
    change c.serving.unacked - frames ≤ _ ∨ _ ∧ c.serving.unacked - frames ≤ _
    rcases h.window with hwindow | ⟨hjoined, hwindow⟩
    · exact .inl (by omega)
    · exact .inr ⟨hjoined, by omega⟩
  | dropped => exact ⟨.inl (Nat.zero_le _), h.fits⟩
  | deliver =>
    simp only [ReadCall.step]
    split <;> exact h
  | fail cause => exact h

/-- In every run of a read the frames it owes are in the order of its protocol, so that the caller never finds a
violation; each fits a frame, no more than the window of them and the last are unacked, and a refusal the caller meets
is the service's, says that a row fits no frame, or is all that was owed and says why the stream could not start. -/
theorem read_stream_kept (codec : Codec N M F C) (read : String) (result : Except (ReadReply N M F C) (Rows N M F C))
    (start : Rows N M F C) (events : List (ReadEvent X)) :
    let c := (ReadCall.start (Serving.answer codec read result) start).run codec events
    (∀ violation, c.reading ≠ .ended (.error (.failed (.violation violation)))) ∧
      c.serving.unacked ≤ NodeRpc.maxReorderPositions + 1 ∧
      (∀ frame ∈ c.serving.owed, (codec.size frame).getD 0 ≤ maxReplyFrameBytes) ∧
      ∀ reply, c.reading = .ended (.error (.rejected reply)) →
        Serving.answer codec read result = .returned reply ∨
          c.serving.owed = [reply] ∧ ∃ e, reply = .notReady ("the caller left before the read started: " ++ codec.debug e) := by
  intro c
  have hagrees : Agrees codec start (Serving.answer codec read result) c := agrees_run codec read result start events
  have hbounded : Bounded codec c.serving :=
    GuardedRuns.invariant_run (I := fun c : ReadCall N M F C X => Bounded codec c.serving) (fun _ e h => h.step e)
      ⟨.inl (Nat.zero_le _), by simp [ReadCall.start, Serving.start]⟩ events
  have hunacked : c.serving.unacked ≤ NodeRpc.maxReorderPositions + 1 := by
    rcases hbounded.window with hwindow | ⟨-, hwindow⟩ <;> omega
  suffices hreading : (∃ held k order, c.reading = .reading held k order) ∨ (∃ taken, c.reading = .ended (.ok taken)) ∨
      ∃ e, c.reading = .ended (.error e) ∧ (∀ violation, e ≠ .failed (.violation violation)) ∧
        ∀ reply, e = .rejected reply → Serving.answer codec read result = .returned reply ∨
          c.serving.owed = [reply] ∧ ∃ e, reply = .notReady ("the caller left before the read started: " ++ codec.debug e) by
    refine ⟨fun violation hv => ?_, hunacked, hbounded.fits, fun reply hreply => ?_⟩
    · rcases hreading with ⟨held, k, order, hr⟩ | ⟨taken, hr⟩ | ⟨e, hr, hnot, -⟩
      · rw [hv] at hr
        cases hr
      · rw [hv] at hr
        cases hr
      · rw [hv] at hr
        cases hr
        exact hnot violation rfl
    · rcases hreading with ⟨held, k, order, hr⟩ | ⟨taken, hr⟩ | ⟨e, hr, -, hrejected⟩
      · rw [hreply] at hr
        cases hr
      · rw [hreply] at hr
        cases hr
      · rw [hreply] at hr
        cases hr
        exact hrejected reply rfl
  obtain ⟨reply, heq⟩ | ⟨rows, frames, -, -, heq, hdata⟩ := answer_cases codec read result
  · rw [heq] at hagrees ⊢
    obtain hreading | hreading | ⟨cause, hreading⟩ := hagrees.of_returned
    · exact .inl hreading
    · refine .inr (.inr ⟨_, hreading, nofun, fun reply' h => ?_⟩)
      cases h
      exact .inl rfl
    · exact .inr (.inr ⟨_, hreading, nofun, nofun⟩)
  · rw [heq] at hagrees
    obtain hreading | hreading | ⟨-, held, -, hreading⟩ | ⟨text, hreading, howed, e, rfl⟩ | ⟨cause, hreading⟩ :=
      hagrees.of_starting hdata
    · exact .inl hreading
    · exact .inr (.inr ⟨_, hreading, nofun, nofun⟩)
    · split at hreading
      next => exact .inr (.inr ⟨_, hreading, nofun, nofun⟩)
      next => exact .inr (.inl ⟨held, hreading⟩)
    · refine .inr (.inr ⟨_, hreading, nofun, fun reply' h => ?_⟩)
      cases h
      exact .inr ⟨howed, e, rfl⟩
    · exact .inr (.inr ⟨_, hreading, nofun, nofun⟩)

end Bounds

end System

end DistributedMesh.ReadStreams
