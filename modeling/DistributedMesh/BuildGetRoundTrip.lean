import DistributedMesh.BuildGet
import Mathlib.Data.List.Basic

namespace DistributedMesh.BuildGet

open Framing (canonical)

section Chunks

variable {α β : Type}

/-- The chunks are the items, cut in their order. -/
theorem flatten_chunked (weight : α → Nat) (full : List (List α)) (last : List α) (size : Nat) (xs : List α) :
    (chunked weight full last size xs).flatten = full.flatten ++ last ++ xs := by
  induction xs generalizing full last size with
  | nil => simp [chunked]
  | cons x xs ih =>
    rw [chunked]
    split
    · rw [ih]
      simp
    · rw [ih]
      simp

theorem chunked_map (f : α → β) (weight : β → Nat) (full : List (List α)) (last : List α) (size : Nat) (xs : List α) :
    chunked weight (full.map (List.map f)) (last.map f) size (xs.map f) =
      (chunked (fun x => weight (f x)) full last size xs).map (List.map f) := by
  induction xs generalizing full last size with
  | nil => simp [chunked]
  | cons x xs ih =>
    rw [List.map_cons, chunked, chunked, List.isEmpty_map]
    split
    · have hfull := ih (full ++ [last]) [x] (weight (f x))
      rw [List.map_append] at hfull
      exact hfull
    · have hlast := ih full (last ++ [x]) (size + weight (f x))
      rw [List.map_append] at hlast
      exact hlast

/-- There is one chunk at least. -/
theorem chunked_ne_nil (weight : α → Nat) (full : List (List α)) (last : List α) (size : Nat) (xs : List α) :
    chunked weight full last size xs ≠ [] := by
  induction xs generalizing full last size with
  | nil => simp [chunked]
  | cons x xs ih =>
    rw [chunked]
    split
    · exact ih (full ++ [last]) [x] (weight x)
    · exact ih full (last ++ [x]) (size + weight x)

end Chunks

variable {Spec Event Change : Type} {coding : Coding Spec Event} {r : Reading Spec Event Change}

theorem takes_append (r : Reading Spec Event Change) (xs ys : List (BuildReply Spec Change)) :
    takes coding r (xs ++ ys) =
      match takes coding r xs with
      | .more r => takes coding r ys
      | .list out => .list out
      | .fails e => .fails e := by
  induction xs generalizing r with
  | nil => rfl
  | cons f xs ih =>
    rw [List.cons_append, takes, takes]
    cases take coding r f with
    | more r => exact ih r
    | list out => rfl
    | fails e => rfl

theorem ofNat_succ (i : Nat) : UInt32.ofNat i + 1 = UInt32.ofNat (i + 1) := (UInt32.ofNat_add i 1).symm

/-- The topology chunks of a Build are read one after the other. -/
theorem takes_topologyFrames (out : List (Build Spec Event Change)) (id : String) (count : UInt32) (i : Nat)
    (chunks : List (List Spec)) (nodes : List Spec) (n : UInt32) (events : List Event) :
    takes coding ⟨out, some ⟨id, UInt32.ofNat i, nodes, n, events⟩⟩ (topologyFrames id count i chunks) =
      .more ⟨out, some ⟨id, UInt32.ofNat (i + chunks.length), nodes ++ chunks.flatten, n, events⟩⟩ := by
  induction chunks generalizing i nodes with
  | nil => simp [topologyFrames, takes]
  | cons c chunks ih =>
    have hfirst : take coding ⟨out, some ⟨id, UInt32.ofNat i, nodes, n, events⟩⟩ (.topology id (UInt32.ofNat i) count c) =
        .more ⟨out, some ⟨id, UInt32.ofNat (i + 1), nodes ++ c, n, events⟩⟩ := by
      simp only [take, Option.getD_some, ne_eq, not_true_eq_false, or_self, if_false, ofNat_succ]
    rw [topologyFrames, takes, hfirst]
    dsimp only
    rw [ih, List.length_cons, List.flatten_cons, List.append_assoc, Nat.add_assoc, Nat.add_comm 1]

theorem mapM_parse (hjson : ∀ e, coding.parse (coding.json e) = some e) (events : List Event) :
    (events.map coding.json).mapM coding.parse = some events := by
  induction events with
  | nil => rfl
  | cons e events ih => simp [List.mapM_cons, hjson e, ih]

/-- The event chunks of a Build are read one after the other. -/
theorem takes_eventFrames (hjson : ∀ e, coding.parse (coding.json e) = some e) (out : List (Build Spec Event Change))
    (id : String) (count : UInt32) (i : Nat) (chunks : List (List Event)) (n : UInt32) (nodes : List Spec) (events : List Event) :
    takes coding ⟨out, some ⟨id, n, nodes, UInt32.ofNat i, events⟩⟩ (eventFrames id count i (chunks.map (List.map coding.json))) =
      .more ⟨out, some ⟨id, n, nodes, UInt32.ofNat (i + chunks.length), events ++ chunks.flatten⟩⟩ := by
  induction chunks generalizing i events with
  | nil => simp [eventFrames, takes]
  | cons c chunks ih =>
    have hfirst : take coding ⟨out, some ⟨id, n, nodes, UInt32.ofNat i, events⟩⟩
        (.events id (UInt32.ofNat i) count (c.map coding.json)) =
        .more ⟨out, some ⟨id, n, nodes, UInt32.ofNat (i + 1), events ++ c⟩⟩ := by
      simp only [take, mapM_parse hjson, Option.getD_some, ne_eq, not_true_eq_false, or_self, if_false, ofNat_succ]
    rw [List.map_cons, eventFrames, takes, hfirst]
    dsimp only
    rw [ih, List.length_cons, List.flatten_cons, List.append_assoc, Nat.add_assoc, Nat.add_comm 1]

/-- The first topology chunk of a Build opens it. -/
theorem takes_topologyFrames_opens (out : List (Build Spec Event Change)) (id : String) (count : UInt32)
    {chunks : List (List Spec)} (hchunks : chunks ≠ []) :
    takes coding ⟨out, none⟩ (topologyFrames id count 0 chunks) =
      takes coding ⟨out, some (.new id)⟩ (topologyFrames id count 0 chunks) := by
  cases chunks with
  | nil => exact absurd rfl hchunks
  | cons c chunks => rfl

/-- The Build as a read answers it. -/
def HeldBuild.whole (coding : Coding Spec Event) (current : Option String) (p : HeldBuild Spec Event Change) :
    Build Spec Event Change :=
  ⟨p.buildId, p.phase, current == some p.buildId, p.change, p.time, p.specs.mergeSort coding.le, p.events⟩

/-- The frames of a Build are read as that Build. -/
theorem takes_buildFrames (hjson : ∀ e, coding.parse (coding.json e) = some e) (current : Option String)
    (p : HeldBuild Spec Event Change) (hevents : p.events.length < UInt32.size) (out : List (Build Spec Event Change)) :
    takes coding ⟨out, none⟩ (buildFrames coding current p) = .more ⟨out ++ [p.whole coding current], none⟩ := by
  let cut : List (List Event) := chunked (fun e => (coding.json e).utf8ByteSize) [] [] 0 p.events
  have hcut : (eventChunks coding p.events).2 = cut.map (List.map coding.json) :=
    chunked_map coding.json String.utf8ByteSize [] [] 0 p.events
  have hflat : cut.flatten = p.events := flatten_chunked _ [] [] 0 p.events
  have htopology : (topologyChunks coding p.specs).flatten = p.specs.mergeSort coding.le := flatten_chunked _ [] [] 0 _
  have hchunks : topologyChunks coding p.specs ≠ [] := chunked_ne_nil coding.weight [] [] 0 _
  have hnew : (Open.new p.buildId : Open Spec Event) = ⟨p.buildId, UInt32.ofNat 0, [], UInt32.ofNat 0, []⟩ := rfl
  have hcount : p.events.length = (UInt32.ofNat p.events.length).toNat := (UInt32.toNat_ofNat_of_lt' hevents).symm
  rw [buildFrames, takes_append, takes_append, takes_topologyFrames_opens out p.buildId _ hchunks, hnew,
    takes_topologyFrames]
  dsimp only
  rw [hcut, takes_eventFrames hjson]
  dsimp only
  rw [htopology, hflat]
  simp only [takes, take, Option.getD_some, List.nil_append, Nat.zero_add, List.length_map, eventChunks, ne_eq, not_true_eq_false,
    false_or, p.canonical, if_true, ← hcount]
  rfl

/-- The frames of the Builds are read as those Builds, in their order. -/
theorem takes_held (hjson : ∀ e, coding.parse (coding.json e) = some e) (current : Option String)
    (held : List (HeldBuild Spec Event Change)) (hevents : ∀ p ∈ held, p.events.length < UInt32.size)
    (out : List (Build Spec Event Change)) :
    takes coding ⟨out, none⟩ (held.flatMap (buildFrames coding current)) =
      .more ⟨out ++ held.map (HeldBuild.whole coding current), none⟩ := by
  induction held generalizing out with
  | nil => simp [takes]
  | cons p held ih =>
    rw [List.flatMap_cons, takes_append, takes_buildFrames hjson current p (hevents p List.mem_cons_self)]
    dsimp only
    rw [ih fun q hq => hevents q (List.mem_cons_of_mem _ hq)]
    simp

/-- A read that is a list took it at the end of the stream, which counts it. -/
theorem take_list {f : BuildReply Spec Change} {out : List (Build Spec Event Change)} (htake : take coding r f = .list out) :
    ∃ n, f = .done n ∧ r.opened = none ∧ out = r.out ∧ n.toNat = out.length := by
  cases f with
  | done n =>
    rw [take] at htake
    split at htake
    · cases htake
    next hopened =>
      split at htake
      · cases htake
      next hcount =>
        cases htake
        exact ⟨n, rfl, by simpa using hopened, rfl, by simpa using hcount⟩
  | topology id i n nodes =>
    rw [take] at htake
    split at htake <;> cases htake
  | events id i n events =>
    rw [take] at htake
    cases hparse : events.mapM coding.parse with
    | none =>
      rw [hparse] at htake
      cases htake
    | some parsed =>
      rw [hparse] at htake
      dsimp only at htake
      split at htake <;> cases htake
  | build id phase current events chunks change time =>
    rw [take] at htake
    split at htake
    · cases htake
    · split at htake <;> cases htake
  | refusal | other => cases htake

/-- Specs of one byte each, and events that are their own JSON. -/
def plainCoding : Coding Nat String := ⟨fun s => "\"" ++ s ++ "\"", fun _ => 1, fun a b => decide (a ≤ b), id, some⟩

def runningBuild : HeldBuild Nat String Unit := ⟨"000000000001", by decide, .running, (), 7, [2, 1], ["started", "step"]⟩

def oneBuildLog : BuildLog Nat String Unit :=
  ⟨.ok (some "000000000001"), .ok ["000000000002", "000000000001"],
    fun id => if id = "000000000001" then .ok runningBuild else .error .unknownBuild⟩

/-- What a read takes of a frame: the nodes, the events or the header it carries. -/
def BuildReply.nodes : BuildReply Spec Change → List Spec
  | .topology _ _ _ specs => specs
  | _ => []

def BuildReply.parsed (coding : Coding Spec Event) : BuildReply Spec Change → List Event
  | .events _ _ _ texts => (texts.mapM coding.parse).getD []
  | _ => []

def BuildReply.header : BuildReply Spec Change → Option (String × BuildPhase × Bool × Change × Nat × Nat)
  | .build buildId phase current count _ change time => some (buildId, phase, current, change, time, count.toNat)
  | _ => none

def Build.header (b : Build Spec Event Change) : String × BuildPhase × Bool × Change × Nat × Nat :=
  (b.buildId, b.phase, b.current, b.change, b.time, b.events.length)

/-- What a read has is what the frames carried, in their order. -/
structure Kept (coding : Coding Spec Event) (frames : List (BuildReply Spec Change)) (r : Reading Spec Event Change) : Prop where
  headers : r.out.map Build.header = frames.filterMap BuildReply.header
  nodes : r.out.flatMap Build.nodes ++ (r.opened.map Open.nodes).getD [] = frames.flatMap BuildReply.nodes
  events : r.out.flatMap Build.events ++ (r.opened.map Open.events).getD [] = frames.flatMap (BuildReply.parsed coding)

variable {frames : List (BuildReply Spec Change)} {f : BuildReply Spec Change} {next : Reading Spec Event Change}

theorem opened_nodes (o : Option (Open Spec Event)) (id : String) : (o.getD (.new id)).nodes = (o.map Open.nodes).getD [] := by
  cases o <;> rfl

theorem opened_events (o : Option (Open Spec Event)) (id : String) : (o.getD (.new id)).events = (o.map Open.events).getD [] := by
  cases o <;> rfl

/-- A frame a read goes on after adds what it carries. -/
theorem Kept.take (h : Kept coding frames r) (htake : BuildGet.take coding r f = .more next) :
    Kept coding (frames ++ [f]) next := by
  cases f with
  | topology id i n nodes =>
    rw [BuildGet.take] at htake
    split at htake
    · cases htake
    · cases htake
      refine ⟨?_, ?_, ?_⟩
      · rw [List.filterMap_append, h.headers]
        exact (List.append_nil _).symm
      · rw [List.flatMap_append, ← h.nodes, ← opened_nodes r.opened id]
        simp [BuildReply.nodes]
      · rw [List.flatMap_append, ← h.events, ← opened_events r.opened id]
        simp [BuildReply.parsed]
  | events id i n events =>
    rw [BuildGet.take] at htake
    cases hparse : events.mapM coding.parse with
    | none =>
      rw [hparse] at htake
      cases htake
    | some parsed =>
      rw [hparse] at htake
      dsimp only at htake
      split at htake
      · cases htake
      · cases htake
        refine ⟨?_, ?_, ?_⟩
        · rw [List.filterMap_append, h.headers]
          exact (List.append_nil _).symm
        · rw [List.flatMap_append, ← h.nodes, ← opened_nodes r.opened id]
          simp [BuildReply.nodes]
        · rw [List.flatMap_append, ← h.events, ← opened_events r.opened id]
          simp [BuildReply.parsed, hparse]
  | build id phase current events chunks change time =>
    rw [BuildGet.take] at htake
    split at htake
    · cases htake
    next hclosed =>
      split at htake
      · cases htake
        have hlength : (r.opened.getD (.new id)).events.length = events.toNat := by
          by_contra hne
          exact hclosed (.inr (.inr hne))
        refine ⟨?_, ?_, ?_⟩
        · rw [List.filterMap_append, List.map_append, h.headers]
          simp [BuildReply.header, Build.header, hlength]
        · have hnodes := h.nodes
          rw [← opened_nodes r.opened id] at hnodes
          simp [BuildReply.nodes, ← hnodes]
        · have hevents := h.events
          rw [← opened_events r.opened id] at hevents
          simp [BuildReply.parsed, ← hevents]
      · cases htake
  | done n =>
    rw [BuildGet.take] at htake
    split at htake
    · cases htake
    · split at htake <;> cases htake
  | refusal | other => cases htake

theorem takes_list {before : List (BuildReply Spec Change)} (h : Kept coding before r) {out : List (Build Spec Event Change)}
    (hlist : takes coding r frames = .list out) :
    ∃ sent n after, before ++ frames = sent ++ BuildReply.done n :: after ∧ n.toNat = out.length ∧ Kept coding sent ⟨out, none⟩ := by
  induction frames generalizing before r with
  | nil => cases hlist
  | cons f frames ih =>
    rw [takes] at hlist
    cases htake : take coding r f with
    | more next =>
      rw [htake] at hlist
      obtain ⟨sent, n, after, hsplit, hn, hkept⟩ := ih (h.take htake) hlist
      refine ⟨sent, n, after, ?_, hn, hkept⟩
      rw [← hsplit, List.append_assoc]
      rfl
    | list got =>
      rw [htake] at hlist
      cases hlist
      obtain ⟨n, rfl, hopened, rfl, hn⟩ := take_list htake
      refine ⟨before, n, frames, rfl, hn, ?_⟩
      rw [← hopened]
      exact h
    | fails e =>
      rw [htake] at hlist
      cases hlist

/-- Whatever a stream carries, a read that answers a list answers what the stream carried up to an end that counts it:
its headers in their order, each with its number of events, and all the nodes and events of its chunks, none lost, moved
to another place or added. -/
theorem read_builds_were_sent (coding : Coding Spec Event) (frames : List (BuildReply Spec Change)) (ending : StreamEnd)
    (out : List (Build Spec Event Change)) (h : builds coding frames ending = .ok out) :
    ∃ sent n after, frames = sent ++ BuildReply.done n :: after ∧ n.toNat = out.length ∧
      out.map Build.header = sent.filterMap BuildReply.header ∧ out.flatMap Build.nodes = sent.flatMap BuildReply.nodes ∧
      out.flatMap Build.events = sent.flatMap (BuildReply.parsed coding) := by
  have hlist : takes coding ⟨[], none⟩ frames = .list out := by
    rw [builds] at h
    cases htakes : takes coding ⟨[], none⟩ frames with
    | list got =>
      rw [htakes] at h
      rw [Except.ok.inj h]
    | fails e =>
      rw [htakes] at h
      cases h
    | more r =>
      rw [htakes] at h
      cases h
  have hnew : Kept coding ([] : List (BuildReply Spec Change)) ⟨[], none⟩ := ⟨rfl, rfl, rfl⟩
  obtain ⟨sent, n, after, hsplit, hn, hkept⟩ := takes_list hnew hlist
  refine ⟨sent, n, after, hsplit, hn, hkept.headers, ?_, ?_⟩
  · have hnodes := hkept.nodes
    rwa [Option.map_none, Option.getD_none, List.append_nil] at hnodes
  · have hevents := hkept.events
    rwa [Option.map_none, Option.getD_none, List.append_nil] at hevents

/-- The read of the Build the log holds, with two nodes and two events. -/
theorem read_builds_were_sent_running :
    ∃ frames, serveBuilds plainCoding oneBuildLog ⟨[]⟩ = .ok frames ∧
      ∃ sent n after, frames = sent ++ BuildReply.done n :: after ∧ n.toNat = 1 ∧
        [("000000000001", BuildPhase.running, true, (), 7, 2)] = sent.filterMap BuildReply.header ∧
        [1, 2] = sent.flatMap BuildReply.nodes ∧ ["started", "step"] = sent.flatMap (BuildReply.parsed plainCoding) := by
  refine ⟨streamed plainCoding (some "000000000001") [runningBuild], rfl, ?_⟩
  have hread : builds plainCoding (streamed plainCoding (some "000000000001") [runningBuild]) .none =
      .ok [runningBuild.whole plainCoding (some "000000000001")] := by
    rw [builds, streamed, takes_append, takes_held (fun _ => rfl) _ _ (by decide)]
    rfl
  obtain ⟨sent, n, after, hsplit, hn, hheaders, hnodes, hevents⟩ := read_builds_were_sent plainCoding _ .none _ hread
  refine ⟨sent, n, after, hsplit, hn, hheaders, ?_, hevents⟩
  rw [← hnodes]
  simp [HeldBuild.whole, runningBuild, plainCoding, List.mergeSort, List.MergeSort.Internal.splitInTwo]

end DistributedMesh.BuildGet
