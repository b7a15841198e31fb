import DistributedMesh.ReadStreamRuns

namespace DistributedMesh.ReadStreams

variable {N M F C Q X : Type} {codec : Codec N M F C}

section Whole

/-- The empty rows of the entity of rows. -/
def Rows.emptied : Rows N M F C → Rows N M F C
  | nodes _ => nodes []
  | meshes _ => meshes []
  | fabrics _ => fabrics []
  | connections _ => connections ⟨"", false, []⟩

/-- Connections name the node that holds them. -/
def Rows.Named : Rows N M F C → Prop
  | connections view => view.node ≠ ""
  | _ => True

/-- The frames of rows, taken in order, are the rows. -/
theorem takeAll_emptied {rows : Rows N M F C} {read : String} {frames : List (ReadReply N M F C)} (hnamed : rows.Named)
    (hframes : readFrames codec rows.intoRows read = .ok frames) : rows.emptied.takeAll frames = some rows := by
  cases rows with
  | nodes l =>
    obtain ⟨ls, rfl, rfl⟩ := readFrames_entity frame_nodes hframes
    exact takeAll_appends (fun _ _ => rfl) [] ls
  | meshes l =>
    obtain ⟨ls, rfl, rfl⟩ := readFrames_entity frame_meshes hframes
    exact takeAll_appends (fun _ _ => rfl) [] ls
  | fabrics l =>
    obtain ⟨ls, rfl, rfl⟩ := readFrames_entity frame_fabrics hframes
    exact takeAll_appends (fun _ _ => rfl) [] ls
  | connections view =>
    obtain ⟨node, complete, cs⟩ := view
    have hnode : node ≠ "" := hnamed
    rw [intoRows_connections] at hframes
    obtain ⟨ls, rfl, hls⟩ := readFrames_entity (frame_connections node complete) hframes
    cases ls with
    | nil => exact absurd hls.symm (connectionRows_ne_nil cs)
    | cons l ls =>
      have hfirst : (Rows.connections (N := N) (M := M) (F := F) ⟨"", false, []⟩).take
          (.connections node complete (l.filterMap id)) = some (.connections ⟨node, complete, l.filterMap id⟩) := by
        simp [Rows.take, hnode]
      have hrest : (ls.map fun l => ReadReply.connections (N := N) (M := M) (F := F) node complete (l.filterMap id)) =
          (ls.map (List.filterMap id)).map (.connections node complete) := by simp
      have hflat : l.filterMap id ++ (ls.map (List.filterMap id)).flatten = cs := by
        rw [← filterMap_connectionRows cs, ← hls, List.filterMap_flatten]
        rfl
      change (Rows.connections ⟨"", false, []⟩).takeAll _ = _
      rw [List.map_cons, Rows.takeAll, hfirst, Option.bind_some, hrest, takeAll_connections hnode, hflat]

theorem length_intoRows (rows : Rows N M F C) : rows.intoRows.length ≤ max 1 rows.len := by
  cases rows with
  | connections view =>
    obtain ⟨node, complete, cs⟩ := view
    cases cs <;> simp [Rows.intoRows, Rows.len]
  | nodes | meshes | fabrics => simp [Rows.intoRows, Rows.len]

end Whole

namespace Serving

variable {s : Serving N M F C} {read : String} {frames : List (ReadReply N M F C)} {served count : Nat}

/-- A stream that goes on: its response is owed, and what was owed is what its handler got to. -/
inductive Goes (read : String) (frames : List (ReadReply N M F C)) (served count : Nat) (s : Serving N M F C) : Prop
  | starting (handler : s.handler = .starting read frames served count) (order : s.order = .notStarted) (owed : s.owed = [])
  | sending {sent rest : List (ReadReply N M F C)} (split : frames = sent ++ rest)
      (handler : s.handler = .sending rest served count) (order : s.order = .streaming) (owed : s.owed = .started read :: sent)
  | ending (handler : s.handler = .returned (.ended served count)) (order : s.order = .streaming)
      (owed : s.owed = .started read :: frames)
  | joined (handler : s.handler = .joined) (owed : s.owed = streamOf read frames served count)

theorem Goes.of_eq {t : Serving N M F C} (h : Goes read frames served count s) (hhandler : t.handler = s.handler)
    (horder : t.order = s.order) (howed : t.owed = s.owed) : Goes read frames served count t := by
  cases h with
  | starting handler order owed => exact .starting (hhandler.trans handler) (horder.trans order) (howed.trans owed)
  | sending split handler order owed =>
    exact .sending split (hhandler.trans handler) (horder.trans order) (howed.trans owed)
  | ending handler order owed => exact .ending (hhandler.trans handler) (horder.trans order) (howed.trans owed)
  | joined handler owed => exact .joined (hhandler.trans handler) (howed.trans owed)

structure Flows (read : String) (frames : List (ReadReply N M F C)) (served count : Nat) (s : Serving N M F C) : Prop where
  goes : Goes read frames served count s
  isOwed : s.isOwed = true
  held : s.callerGone = none
  position : s.frames = s.owed.length

/-- The turns a handler still needs. -/
def turns (s : Serving N M F C) : Nat :=
  match s.handler with
  | .starting _ frames _ _ => frames.length + 3
  | .sending frames _ _ => frames.length + 2
  | .returned _ => 1
  | .joined => 0

theorem put_eq {frame : ReadReply N M F C} {written : Written} (howed : s.isOwed = true) (hposition : s.frames < UInt32.size)
    (hwritten : written ≠ .stopped 0) : s.put frame written =
      ({ s with owed := s.owed ++ [frame], unacked := s.unacked + 1, frames := s.frames + 1 }, none) := by
  have hpast : ¬UInt32.size ≤ s.frames := by omega
  have hgone : ¬s.isOwed = false := by simp [howed]
  cases written with
  | ok | gone => simp only [put, if_neg hpast, if_neg hgone]
  | stopped code =>
    cases code with
    | zero => exact absurd rfl hwritten
    | succ code => simp only [put, if_neg hpast, if_neg hgone]

/-- A frame that fits is owed once the window allows it. -/
theorem sends_eq {frame : ReadReply N M F C} {size : Nat} {order : OrderState} {written : Written} (hsize : codec.size frame = some size)
    (hfits : size ≤ maxReplyFrameBytes) (hgone : s.callerGone = none) (howed : s.isOwed = true)
    (hposition : s.frames < UInt32.size) (hadmitted : s.order.admit frame.frameKind = .ok order) (hwritten : written ≠ .stopped 0)
    (goesOn : Handler N M F C) (left : String) (changed : Bool) :
    s.sends codec frame goesOn left written changed =
      if NodeRpc.maxReorderPositions ≤ s.unacked then { s with waits := true }
      else { s with handler := goesOn, order := order, frames := s.frames + 1, unacked := s.unacked + 1, waits := false,
                    owed := s.owed ++ [frame] } := by
  have hlarge : ¬maxReplyFrameBytes < size := by omega
  have hends : ¬(s.waits = true ∧ s.isOwed = false ∧ changed = false) := by simp [howed]
  have hwrite : s.write codec frame written changed =
      if NodeRpc.maxReorderPositions ≤ s.unacked then ({ s with waits := true }, none)
      else ({ s with order := order, frames := s.frames + 1, unacked := s.unacked + 1, waits := false,
                     owed := s.owed ++ [frame] }, some none) := by
    simp only [write, hsize, hgone, if_neg hlarge, if_neg hends, hadmitted]
    split
    next => rfl
    next =>
      have hput : ({ s with order := order, waits := false } : Serving N M F C).put frame written = _ :=
        put_eq howed hposition hwritten
      simp only [hgone] at hput
      rw [hput]
  by_cases hfull : NodeRpc.maxReorderPositions ≤ s.unacked
  · rw [if_pos hfull] at hwrite ⊢
    simp only [sends, hwrite]
  · rw [if_neg hfull] at hwrite ⊢
    simp only [sends, hwrite]

/-- What a stream needs to go through: each of its frames fits, and its positions are enough. -/
structure Fits (codec : Codec N M F C) (read : String) (frames : List (ReadReply N M F C)) (served count : Nat) : Prop where
  started : ∃ size, codec.size (.started read) = some size ∧ size ≤ maxReplyFrameBytes
  data : ∀ frame ∈ frames, frame.frameKind = .data ∧ ∃ size, codec.size frame = some size ∧ size ≤ maxReplyFrameBytes
  ended : (codec.size (.ended served count)).getD 0 ≤ maxReplyFrameBytes
  positions : frames.length + 2 ≤ UInt32.size

/-- A turn of a stream that goes on: the handler waits, or it is one turn further. -/
theorem Flows.next (hfits : Fits codec read frames served count) (h : Flows read frames served count s) {written : Written}
    (hwritten : written ≠ .stopped 0) (changed : Bool) :
    Flows read frames served count (s.next codec written changed) ∧
      (s.unacked < NodeRpc.maxReorderPositions → (s.next codec written changed).turns = s.turns - 1) := by
  have hpositions := hfits.positions
  cases h.goes with
  | starting handler order owed =>
    obtain ⟨size, hsize, hle⟩ := hfits.started
    have hposition : s.frames < UInt32.size := by
      rw [h.position, owed, List.length_nil]
      decide
    have hadmitted : s.order.admit (ReadReply.started (N := N) (M := M) (F := F) (C := C) read).frameKind = .ok .streaming := by
      rw [order]
      rfl
    have hsends := sends_eq hsize hle h.held h.isOwed hposition hadmitted hwritten (.sending frames served count)
      "the caller left before the read started: " changed
    simp only [Serving.next, handler]
    rw [hsends]
    split
    next hfull => exact ⟨⟨.starting handler order owed, h.isOwed, h.held, h.position⟩, fun hlt => absurd hfull (by omega)⟩
    next =>
      refine ⟨⟨.sending (List.nil_append _).symm rfl rfl (by rw [owed]; rfl), h.isOwed, h.held, ?_⟩, fun _ => ?_⟩
      · rw [h.position, List.length_append]
        rfl
      · simp only [turns, handler]
        omega
  | @sending sent rest split handler order owed =>
    cases rest with
    | nil =>
      simp only [Serving.next, handler]
      refine ⟨⟨.ending rfl order (by rw [split, List.append_nil]; exact owed), h.isOwed, h.held, h.position⟩, fun _ => ?_⟩
      simp only [turns, handler, List.length_nil]
    | cons frame rest =>
      obtain ⟨hkind, size, hsize, hle⟩ := hfits.data frame (by rw [split]; simp)
      have hposition : s.frames < UInt32.size := by
        rw [h.position, owed, List.length_cons]
        rw [split, List.length_append, List.length_cons] at hpositions
        omega
      have hadmitted : s.order.admit frame.frameKind = .ok .streaming := by
        rw [order, hkind]
        rfl
      have hsends := sends_eq hsize hle h.held h.isOwed hposition hadmitted hwritten (.sending rest served count)
        "the caller left during the read: " changed
      simp only [Serving.next, handler]
      rw [hsends]
      split
      next hfull => exact ⟨⟨.sending split handler order owed, h.isOwed, h.held, h.position⟩, fun hlt => absurd hfull (by omega)⟩
      next =>
        have hsplit : frames = (sent ++ [frame]) ++ rest := by rw [split]; simp
        refine ⟨⟨.sending hsplit rfl rfl (by rw [owed]; rfl), h.isOwed, h.held, ?_⟩, fun _ => ?_⟩
        · rw [h.position, List.length_append]
          rfl
        · simp only [turns, handler, List.length_cons]
          omega
  | ending handler order owed =>
    have hposition : s.frames < UInt32.size := by
      rw [h.position, owed, List.length_cons]
      omega
    have hnot : ¬maxReplyFrameBytes < (codec.size (.ended served count)).getD 0 := by
      have hended := hfits.ended
      omega
    have hfinal : s.order.finalFrame (ReadReply.ended (N := N) (M := M) (F := F) (C := C) served count).frameKind = .ok .done := by
      rw [order]
      rfl
    have hput : ({ s with order := .done } : Serving N M F C).put (.ended served count) written = _ :=
      put_eq h.isOwed hposition hwritten
    have hfinish : s.finish codec (.ended served count) written =
        { s with handler := .joined, order := .done, owed := s.owed ++ [.ended served count], unacked := s.unacked + 1,
                 frames := s.frames + 1, served := some .terminal } := by
      simp only [finish, if_neg hnot, hfinal, hput]
    simp only [Serving.next, handler]
    rw [hfinish]
    refine ⟨⟨.joined rfl ?_, h.isOwed, h.held, ?_⟩, fun _ => ?_⟩
    · rw [owed]
      rfl
    · rw [h.position, List.length_append]
      rfl
    · simp only [turns, handler]
  | joined handler owed =>
    have heq : s.next codec written changed = s := by simp only [Serving.next, handler]
    rw [heq]
    refine ⟨h, fun _ => ?_⟩
    simp only [turns, handler]

theorem Goes.of_turns (h : Goes read frames served count s) (hturns : s.turns = 0) : s.owed = streamOf read frames served count := by
  cases h with
  | starting handler | sending _ handler | ending handler => simp [turns, handler] at hturns
  | joined handler owed => exact owed

theorem Goes.owed (h : Goes read frames served count s) : s.owed <+: streamOf read frames served count := by
  have hstream : .started read :: frames <+: streamOf read frames served count :=
    (List.prefix_cons_inj _).mpr (List.prefix_append _ _)
  cases h with
  | starting _ _ owed =>
    rw [owed]
    exact List.nil_prefix
  | sending split _ _ owed =>
    rw [owed]
    refine List.IsPrefix.trans ?_ hstream
    rw [split]
    exact (List.prefix_cons_inj _).mpr (List.prefix_append _ _)
  | ending _ _ owed =>
    rw [owed]
    exact hstream
  | joined _ owed => exact ⟨[], by rw [List.append_nil, owed]⟩

end Serving

section Progress

variable {start rows : Rows N M F C} {read : String} {frames : List (ReadReply N M F C)} {c : ReadCall N M F C X}

/-- What happens to a read whose response stays owed and whose stream does not end. -/
def Kept : ReadEvent X → Prop
  | .next written _ => written ≠ .stopped 0
  | .dropped => False
  | .fail _ => False
  | _ => True

/-- The rows a whole stream gives its caller. -/
theorem takes_whole (hdata : ∀ frame ∈ frames, frame.frameKind = .data) (htaken : start.takeAll frames = some rows)
    (hlen : rows.len < UInt32.size) :
    (Reading.reading (X := X) start 0 .notStarted).takes
      (streamOf read frames (rows.len % UInt32.size) (frames.length % UInt32.size)) = .ended (.ok rows) := by
  have hcount : rows.len % UInt32.size = rows.len := Nat.mod_eq_of_lt hlen
  change (Reading.reading (X := X) start 0 .streaming).takes (frames ++ [.ended _ _]) = _
  rw [Reading.takes_append, takes_data _ hdata (by decide), htaken, Nat.zero_add]
  change (if rows.len % UInt32.size ≠ rows.len ∨ frames.length % UInt32.size ≠ frames.length % UInt32.size then _
    else Reading.ended (Except.ok rows)) = _
  rw [if_neg (by simp [hcount])]

/-- A read that goes on, with what its caller took of it. -/
structure Proceeds (start : Rows N M F C) (read : String) (frames : List (ReadReply N M F C)) (served count : Nat)
    (c : ReadCall N M F C X) : Prop where
  flows : c.serving.Flows read frames served count
  handed : c.handed ≤ c.serving.owed.length
  reads : c.reading = (Reading.reading start 0 .notStarted).takes (c.serving.owed.take c.handed)

variable {served count : Nat}

theorem Proceeds.step (hfits : Serving.Fits codec read frames served count) (h : Proceeds start read frames served count c)
    {e : ReadEvent X} (he : Kept e) : Proceeds start read frames served count (c.step codec e) := by
  cases e with
  | next written changed =>
    have howed := owed_next codec c.serving written changed
    refine ⟨(h.flows.next hfits he changed).1, h.handed.trans howed.length_le, ?_⟩
    obtain ⟨more, hmore⟩ := howed
    change c.reading = (Reading.reading start 0 .notStarted).takes ((c.serving.next codec written changed).owed.take c.handed)
    rw [← hmore, List.take_append_of_le_length h.handed]
    exact h.reads
  | acked acks => exact ⟨⟨h.flows.goes.of_eq rfl rfl rfl, h.flows.isOwed, h.flows.held, h.flows.position⟩, h.handed, h.reads⟩
  | dropped | fail => exact absurd he id
  | deliver =>
    simp only [ReadCall.step]
    split
    next frame hframe =>
      refine ⟨h.flows, (List.getElem?_eq_some_iff.mp hframe).1, ?_⟩
      change c.reading.frame frame = (Reading.reading start 0 .notStarted).takes (c.serving.owed.take (c.handed + 1))
      rw [List.take_add_one, hframe, Reading.takes_append, ← h.reads]
      rfl
    next => exact h

theorem Proceeds.run (hfits : Serving.Fits codec read frames served count) (h : Proceeds start read frames served count c)
    {events : List (ReadEvent X)} (hevents : ∀ e ∈ events, Kept e) :
    Proceeds start read frames served count (c.run codec events) := by
  induction events generalizing c with
  | nil => exact h
  | cons e events ih =>
    exact ih (h.step hfits (hevents e List.mem_cons_self)) fun e he => hevents e (List.mem_cons_of_mem _ he)

theorem run_append (c : ReadCall N M F C X) (xs ys : List (ReadEvent X)) :
    c.run codec (xs ++ ys) = (c.run codec xs).run codec ys := List.foldl_append

/-- Acks and turns bring the handler to its end. -/
theorem Proceeds.joins (hfits : Serving.Fits codec read frames served count) (h : Proceeds start read frames served count c) :
    ∃ more, (∀ e ∈ more, Kept e) ∧ (c.run codec more).serving.turns = 0 := by
  generalize hn : c.serving.turns = n
  induction n generalizing c with
  | zero => exact ⟨[], by simp, hn⟩
  | succ n ih =>
    have hkept : ∀ e ∈ [ReadEvent.acked (X := X) c.serving.unacked, .next .ok true], Kept e := by simp [Kept]
    have hacked := h.step (e := .acked c.serving.unacked) hfits trivial
    have hwindow : (c.step codec (.acked c.serving.unacked)).serving.unacked < NodeRpc.maxReorderPositions := by
      change c.serving.unacked - c.serving.unacked < _
      rw [Nat.sub_self]
      decide
    have hok : Written.ok ≠ .stopped 0 := by simp
    have hturns := (hacked.flows.next hfits hok true).2 hwindow
    have hrest : (c.run codec [.acked c.serving.unacked, .next .ok true]).serving.turns = n := by
      change ((c.step codec (.acked c.serving.unacked)).serving.next codec .ok true).turns = n
      rw [hturns]
      change c.serving.turns - 1 = n
      omega
    obtain ⟨more, hmore, hjoined⟩ := ih (h.run hfits hkept) hrest
    refine ⟨[.acked c.serving.unacked, .next .ok true] ++ more, fun e he => ?_, ?_⟩
    · rcases List.mem_append.mp he with he | he
      · exact hkept e he
      · exact hmore e he
    · rw [run_append]
      exact hjoined

/-- What is owed reaches the caller. -/
theorem Proceeds.delivers (hfits : Serving.Fits codec read frames served count) (h : Proceeds start read frames served count c)
    (hturns : c.serving.turns = 0) : ∃ more, (∀ e ∈ more, Kept e) ∧
      (c.run codec more).reading = (Reading.reading start 0 .notStarted).takes (streamOf read frames served count) := by
  have howed := h.flows.goes.of_turns hturns
  generalize hn : c.serving.owed.length - c.handed = n
  induction n generalizing c with
  | zero =>
    refine ⟨[], by simp, ?_⟩
    change c.reading = _
    rw [h.reads, List.take_of_length_le (by omega), howed]
  | succ n ih =>
    have hlt : c.handed < c.serving.owed.length := by omega
    have hframe : c.serving.owed[c.handed]? = some c.serving.owed[c.handed] := List.getElem?_eq_getElem hlt
    have hstep : c.step codec .deliver = { c with reading := c.reading.frame c.serving.owed[c.handed], handed := c.handed + 1 } := by
      simp only [ReadCall.step, hframe]
    obtain ⟨more, hmore, hdone⟩ := ih (c := c.step codec .deliver) (h.step hfits trivial) (by rw [hstep]; exact hturns)
      (by rw [hstep]; exact howed) (by rw [hstep]; simp only; omega)
    refine ⟨.deliver :: more, fun e he => ?_, hdone⟩
    rcases List.mem_cons.mp he with rfl | he
    · trivial
    · exact hmore e he

theorem readFrames_of_fits {rows : List (Row N M F C)} (read : String)
    (h : ∀ row ∈ rows, ∃ size, codec.size (Row.frame [row]) = some size ∧ size ≤ maxReplyFrameBytes) :
    ∃ frames, readFrames codec rows read = .ok frames := by
  have hrefused : (Chunking.packInOrder (measure codec) rows).2 = [] := by
    refine Chunking.packInOrder_refused fun row hrow => ⟨(), ?_⟩
    obtain ⟨size, hsize, hle⟩ := h row hrow
    simp only [measure, hsize, Option.getD_some, if_pos hle]
  exact ⟨(Chunking.packInOrder (measure codec) rows).1.map fun p => Row.frame p.1, by simp only [readFrames, hrefused]⟩

/-- A read whose service answers rows of the entity asked for, each fitting a frame, never ends but with all of them while
its response stays owed and its stream does not end; and wherever such a run stands, acks, turns of the handler and
deliveries bring it to that end. -/
theorem read_completes (readRows : Entity → Option (String × String) → Q → Except (ReadReply N M F C) (Rows N M F C))
    (req : ReadRequest Q) {rows : Rows N M F C} (hrows : Serving.rowsOf readRows req = .ok rows)
    (hempty : emptyRows req = some rows.emptied) (hnamed : rows.Named) (hlen : rows.len + 2 ≤ UInt32.size)
    (hfits : ∀ row ∈ rows.intoRows, ∃ size, codec.size (Row.frame [row]) = some size ∧ size ≤ maxReplyFrameBytes)
    (hstarted : ∃ size, codec.size (.started req.op) = some size ∧ size ≤ maxReplyFrameBytes)
    (hended : ∀ n f, (codec.size (.ended n f)).getD 0 ≤ maxReplyFrameBytes) {events : List (ReadEvent X)}
    (hkept : ∀ e ∈ events, Kept e) :
    let c := (ReadCall.start (Serving.answer codec req.op (Serving.rowsOf readRows req)) rows.emptied).run codec events
    (∀ result, c.reading = .ended result → result = .ok rows) ∧
      answered req (.ok rows : Except (ReadEnd N M F C X) (Rows N M F C)) = .ok rows ∧
      ∃ more, (∀ e ∈ more, Kept e) ∧ (c.run codec more).reading = .ended (.ok rows) := by
  intro c
  obtain ⟨frames, hframes⟩ := readFrames_of_fits req.op hfits
  have hanswer : Serving.answer codec req.op (Serving.rowsOf readRows req) =
      .starting req.op frames (rows.len % UInt32.size) (frames.length % UInt32.size) := by
    simp only [hrows, Serving.answer, hframes]
  have hdata : ∀ frame ∈ frames, frame.frameKind = .data := by
    intro frame hframe
    obtain ⟨batches, rfl, -⟩ := readFrames_batches hframes
    obtain ⟨batch, -, rfl⟩ := List.mem_map.mp hframe
    exact frameKind_frame batch
  have hstream : Serving.Fits codec req.op frames (rows.len % UInt32.size) (frames.length % UInt32.size) := by
    refine ⟨hstarted, fun frame hframe => ⟨hdata frame hframe, ?_⟩, hended _ _, ?_⟩
    · obtain ⟨batches, -, -, -, hsizes⟩ := readFrames_batches hframes
      exact hsizes frame hframe
    · have hcount := (length_readFrames hframes).trans (length_intoRows rows)
      have hthree : 3 ≤ UInt32.size := by decide
      omega
  have hwhole : (Reading.reading (X := X) rows.emptied 0 .notStarted).takes
      (streamOf req.op frames (rows.len % UInt32.size) (frames.length % UInt32.size)) = .ended (.ok rows) :=
    takes_whole hdata (takeAll_emptied hnamed hframes) (by omega)
  have hproceeds : Proceeds rows.emptied req.op frames (rows.len % UInt32.size) (frames.length % UInt32.size) c := by
    refine Proceeds.run hstream ?_ hkept
    rw [hanswer]
    exact ⟨⟨.starting rfl rfl rfl, rfl, rfl, rfl⟩, Nat.zero_le _, rfl⟩
  refine ⟨fun result hresult => ?_, ?_, ?_⟩
  · -- a caller that has its end keeps it over the rest of the stream
    have horder := (List.take_prefix c.handed c.serving.owed).trans hproceeds.flows.goes.owed
    obtain ⟨rest, hrest⟩ := horder
    rw [← hrest, Reading.takes_append, ← hproceeds.reads, hresult, Reading.takes_ended] at hwhole
    cases hwhole
    rfl
  · cases rows with
    | connections view =>
      cases req with
      | get entity filter => cases entity <;> cases hempty
      | getConnections node incarnation filter => exact if_neg hnamed
    | nodes | meshes | fabrics =>
      cases req with
      | get entity filter => rfl
      | getConnections node incarnation filter => cases hempty
  · obtain ⟨turns, hturns, hjoined⟩ := hproceeds.joins hstream
    obtain ⟨deliveries, hdeliveries, hdone⟩ := (hproceeds.run hstream hturns).delivers hstream hjoined
    refine ⟨turns ++ deliveries, fun e he => ?_, ?_⟩
    · rcases List.mem_append.mp he with he | he
      · exact hturns e he
      · exact hdeliveries e he
    · rw [run_append, hdone, hwhole]

/-- A node that answers three rows. -/
theorem read_completes_three :
    let codec : Codec Nat Unit Unit Unit := ⟨fun _ => some 20000, ⟨toString, fun _ => "", fun _ => "", fun _ => ""⟩, fun _ => ""⟩
    let req : ReadRequest Unit := .get .nodes ()
    let c := (ReadCall.start (X := Unit) (Serving.answer codec req.op (Serving.rowsOf (fun _ _ _ => .ok (.nodes [1, 2, 3])) req))
      (.nodes [])).run codec [.next .ok true, .deliver]
    (∀ result, c.reading = .ended result → result = .ok (.nodes [1, 2, 3])) ∧
      answered req (.ok (.nodes [1, 2, 3]) : Except (ReadEnd Nat Unit Unit Unit Unit) _) = .ok (.nodes [1, 2, 3]) ∧
      ∃ more, (∀ e ∈ more, Kept e) ∧ (c.run codec more).reading = .ended (.ok (.nodes [1, 2, 3])) := by
  intro codec req
  have hle : 20000 ≤ maxReplyFrameBytes := by decide
  have hended : ∀ n f, (codec.size (.ended n f)).getD 0 ≤ maxReplyFrameBytes := fun _ _ => hle
  refine read_completes (fun _ _ _ => .ok (.nodes [1, 2, 3])) req rfl rfl trivial (by decide) (fun _ _ => ⟨20000, rfl, hle⟩)
    ⟨20000, rfl, hle⟩ hended fun e he => ?_
  simp only [List.mem_cons, List.not_mem_nil, or_false] at he
  rcases he with rfl | rfl <;> simp [Kept]

end Progress

end DistributedMesh.ReadStreams
