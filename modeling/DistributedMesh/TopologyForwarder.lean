import DistributedMesh.TopologyAssembly
import DistributedMesh.TopologyForget

namespace DistributedMesh

open Std (ExtTreeMap)
open KeyedMaps

/-- A topology frame of a mesh's channel, as its author put it there. -/
inductive Frame where
  | topologyFull (author : Birth) (publishedAt : Nat) (chunk : Chunk)
  | topologyDelta (author : Birth) (publishedAt : Nat) (mesh : String) (sourcePublisher : PublisherId)
      (baseVersion topologyVersion : Nat) (delta : Delta)

structure Published where
  publisher : PublisherId
  version : Nat
  full : Full

/-- What the forwarding primary puts on its own mesh's channel for a source it holds. -/
inductive Forward where
  | full (frames : List Frame)
  | delta (frame : Frame)
  | nothing (why : String)

/-- The forwarding primary's side: for each source mesh it holds, what it last published into its
own mesh. -/
structure Forwarder where
  author : Birth
  published : ExtTreeMap String Published
  snapshots : Nat
  ownMesh : String

/-- One source as a forwarder is handed it. -/
structure Offer where
  mesh : String
  publisher : PublisherId
  version : Nat
  full : Full

namespace Forwarder

def publish (fw : Forwarder) (mesh : String) (p : Published) : Forwarder :=
  { fw with published := fw.published.insert mesh p }

def publishedVersion (fw : Forwarder) (mesh : String) : Option (PublisherId × Nat) :=
  fw.published[mesh]?.map fun p => (p.publisher, p.version)

/-- What every chunk of the forwarder's next full carries. -/
def header (fw : Forwarder) (me mesh : String) (p : Published) : Header :=
  ⟨some fw.author, mesh, p.publisher, some me, p.version, fw.snapshots + 1⟩

def fullShape (fw : Forwarder) (me mesh : String) (p : Published) (now : Nat) (parts : Parts)
    (index count : UInt32) : Frame :=
  .topologyFull fw.author now ((fw.header me mesh p).shape parts index count)

def deltaFrame (fw : Forwarder) (mesh : String) (basis : Published) (version : Nat) (full : Full)
    (now : Nat) : Frame :=
  .topologyDelta fw.author now mesh basis.publisher basis.version version (basis.full.deltaTo full)

variable (encode : Frame → Bytes)

def fullFrames (fw : Forwarder) (me mesh : String) (p : Published) (now : Nat) :
    Forwarder × List Frame :=
  ({ fw with snapshots := fw.snapshots + 1 },
    chunksMeasured p.full (fw.fullShape me mesh p now) encode)

/-- Publish a full of `mesh` and cut it into frames. -/
def sendFull (fw : Forwarder) (me mesh : String) (p : Published) (now : Nat) :
    Forwarder × List Frame := (fw.publish mesh p).fullFrames encode me mesh p now

def source (fw : Forwarder) (me : String) (offer : Offer) (now : Nat) : Forwarder × Forward :=
  let mesh := offer.mesh
  let stripped := offer.full.withoutLoads
  let next : Published := ⟨offer.publisher, offer.version, stripped⟩
  if mesh = fw.ownMesh then
    (fw.publish mesh next, .nothing "its own mesh: its nodes publish themselves")
  else match fw.published[mesh]?.filter fun p => p.publisher = offer.publisher with
  | none => (fw.sendFull encode me mesh next now).map id .full
  | some basis =>
    if offer.version = basis.version then
      (fw, .nothing "the version is the one last published")
    else if offer.version < basis.version then
      (fw, .nothing "the version is older than the one last published")
    else if (basis.full.deltaTo stripped).isEmpty && offer.version == basis.version + 1 then
      (fw.publish mesh ⟨offer.publisher, basis.version, stripped⟩,
        .nothing "the move changes nothing a member of this Mesh holds")
    else if (encode (fw.deltaFrame mesh basis offer.version stripped now)).length > maxFrame then
      (fw.sendFull encode me mesh next now).map id .full
    else
      (fw.publish mesh next, .delta (fw.deltaFrame mesh basis offer.version stripped now))

def fulls (me : String) (now : Nat) : Forwarder → List Offer → Forwarder × List Frame
  | fw, [] => (fw, [])
  | fw, offer :: held =>
    let next : Published := ⟨offer.publisher, offer.version, offer.full.withoutLoads⟩
    if offer.mesh ≠ fw.ownMesh then
      let sent := fw.sendFull encode me offer.mesh next now
      let rest := fulls me now sent.1 held
      (rest.1, sent.2 ++ rest.2)
    else fulls me now (fw.publish offer.mesh next) held

/-- The fulls of sources already published, one after another. -/
def replayOf (me : String) (now : Nat) : Forwarder → List (String × Published) →
    Forwarder × List Frame
  | fw, [] => (fw, [])
  | fw, (mesh, p) :: meshes =>
    let sent := fw.fullFrames encode me mesh p now
    let rest := replayOf me now sent.1 meshes
    (rest.1, sent.2 ++ rest.2)

def replay (fw : Forwarder) (me : String) (now : Nat) : Forwarder × List Frame :=
  replayOf encode me now fw (fw.published.toList.filter fun q => q.1 ≠ fw.ownMesh)

end Forwarder

def Forward.frames : Forward → List Frame
  | .full frames => frames
  | .delta frame => [frame]
  | .nothing _ => []

namespace SnapshotReceiver

def takeFrame (rx : SnapshotReceiver) : Frame → SnapshotReceiver × Answer
  | .topologyFull author _ c => (rx.takeAuthoredChunk c (some author) none).map id .taken
  | .topologyDelta _ _ mesh source base version delta =>
    (rx.takeDelta mesh source base version delta).map id .moved

def takeFrames (rx : SnapshotReceiver) (frames : List Frame) : SnapshotReceiver :=
  Shards.run takeFrame rx frames

/-- The answers to frames taken one after another. -/
def frameAnswers (rx : SnapshotReceiver) : List Frame → List Answer
  | [] => []
  | frame :: frames => (rx.takeFrame frame).2 :: frameAnswers (rx.takeFrame frame).1 frames

theorem takeFrames_append (rx : SnapshotReceiver) (xs ys : List Frame) :
    rx.takeFrames (xs ++ ys) = (rx.takeFrames xs).takeFrames ys := Shards.run_append _ _ _ _

theorem frameAnswers_append (rx : SnapshotReceiver) (xs ys : List Frame) :
    rx.frameAnswers (xs ++ ys) = rx.frameAnswers xs ++ (rx.takeFrames xs).frameAnswers ys := by
  induction xs generalizing rx with
  | nil => rfl
  | cons x xs ih => rw [List.cons_append, frameAnswers, ih]; rfl

end SnapshotReceiver

def Answer.isInconsistent : Answer → Bool
  | .taken (.refused .inconsistent) | .moved .inconsistent => true
  | _ => false

def Answer.Consistent (answer : Answer) : Prop := answer.isInconsistent = false

/-- The receiver `ry` is the receiver `rx` with the assembly `p` of `P` in it. -/
structure Assembling (P : Publication) (rx ry : SnapshotReceiver) (p : PendingSnapshot) : Prop where
  held : ry.held = rx.held
  unbased : ry.unbased = rx.unbased
  dropped : ry.dropped = rx.dropped
  others : ∀ k : SourceKey, k ≠ P.key → ry.pending[k]? = rx.pending[k]?
  own : ry.pending[P.key]? = some p ∨ (ry.pending[P.key]? = none ∧ p.chunks = ∅)
  part : PartOf (fun _ => True) P p

/-- What a receiver that holds nothing against a publication lets its chunks do. -/
structure Admits (P : Publication) (rx : SnapshotReceiver) : Prop where
  held : ∀ c ∈ P.chunks, rx.againstHeld c false P.owner = none
  complete : ∀ c ∈ P.chunks, rx.againstComplete c P.full false none = none

section InOrder

variable {P : Publication} {rx ry : SnapshotReceiver} {p : PendingSnapshot} {c : Chunk}

theorem Publication.key_eq (hc : c ∈ P.chunks) :
    SnapshotReceiver.sourceKey c false P.owner = P.key := by
  obtain ⟨hmesh, hpublisher, _⟩ := Publication.mem_header hc
  rw [SnapshotReceiver.sourceKey, hmesh, hpublisher, Header.key]

theorem Assembling.assembly (h : Assembling P rx ry p) (hc : c ∈ P.chunks) :
    ry.assembly P.key c = p := by
  rcases h.own with hp | ⟨hp, hempty⟩
  · simp only [SnapshotReceiver.assembly, hp, if_pos (h.part.same hc)]
  · obtain ⟨_, _, hversion, hsnapshot, hcount⟩ := Publication.mem_header hc
    simp only [SnapshotReceiver.assembly, hp, PendingSnapshot.fresh, hversion, hsnapshot, hcount]
    have hpart := h.part
    cases p
    obtain ⟨howner, hv, hs, hn, _⟩ := hpart
    simp_all [Header.key]

theorem Assembling.joins (h : Assembling P rx ry p) (ha : Admits P rx) (hc : c ∈ P.chunks)
    (hi : c.chunkIndex ∉ p.chunks) : ry.Joins c false P.owner := by
  obtain ⟨_, _, _, _, hcount⟩ := Publication.mem_header hc
  refine ⟨by rw [hcount]; exact Publication.chunkIndex_lt hc, ?_, ?_⟩
  · rw [SnapshotReceiver.againstHeld, SnapshotReceiver.heldBy, h.held]
    exact ha.held c hc
  · rw [Publication.key_eq hc, SnapshotReceiver.againstPending]
    rcases h.own with hp | ⟨hp, _⟩
    · have hnone : p.chunks[c.chunkIndex]? = none := ExtTreeMap.getElem?_eq_none hi
      rw [hp]
      simp [h.part.same hc, PendingSnapshot.has, h.part.count, hcount, hnone]
    · rw [hp]
      rfl

theorem Assembling.joined (h : Assembling P rx ry p) (hc : c ∈ P.chunks) :
    ry.joined c false P.owner = p.add c := by
  rw [SnapshotReceiver.joined, Publication.key_eq hc, h.assembly hc]

theorem Assembling.waits (h : Assembling P rx ry p) (hc : c ∈ P.chunks) :
    Assembling P rx (ry.waits c false P.owner) (p.add c) := by
  refine ⟨h.held, h.unbased, h.dropped, fun k hk => ?_, Or.inl ?_, h.part.add hc trivial⟩
  · rw [SnapshotReceiver.waits, Publication.key_eq hc, getElem?_insert_eq, if_neg hk.symm]
    exact h.others k hk
  · rw [SnapshotReceiver.waits, Publication.key_eq hc, getElem?_insert_eq, if_pos rfl, h.joined hc]

/-- The receiver `rz` is the receiver `rx` with the publication installed in it. -/
structure Installed (P : Publication) (rx rz : SnapshotReceiver) : Prop where
  held : ∃ h, rz.held = rx.held.insert P.mesh h ∧ h.publisher = P.publisher ∧
    h.version = P.version ∧ h.full = P.full ∧ (rx.dropped[P.mesh]? = none → h.desynced = none) ∧
    ∃ p, h.publication = some p ∧ p.snapshotId = P.snapshotId
  pending : ∀ (k : SourceKey) (p : PendingSnapshot), rz.pending[k]? = some p → rx.pending[k]? = some p
  dropped : ∀ mesh : String, rx.dropped[mesh]? = none → rz.dropped[mesh]? = none

theorem Assembling.installed (h : Assembling P rx ry p) (hc : c ∈ P.chunks) :
    Installed P rx ((ry.taken c false P.owner).install c.mesh c.publisher (p.add c) P.full false).1 := by
  obtain ⟨hmesh, hpublisher, _⟩ := Publication.mem_header hc
  have hpart : PartOf (fun _ => True) P (p.add c) := h.part.add hc trivial
  refine ⟨?_, fun k q hq => ?_, fun mesh hm => ?_⟩
  · refine ⟨_, by rw [← h.held, ← hmesh]; rfl, hpublisher, hpart.version, rfl, fun hd => ?_,
      p.add c, rfl, hpart.snapshotId⟩
    have hfloor : (ry.taken c false P.owner).dropped[c.mesh]? = none := by
      rw [SnapshotReceiver.taken, h.dropped, hmesh]
      exact hd
    simp only [hfloor, Option.filter_none, Option.map_none]
  · simp only [SnapshotReceiver.install, SnapshotReceiver.taken, Publication.key_eq hc,
      ExtTreeMap.getElem?_filter', getElem?_erase_eq, Option.filter_eq_some_iff] at hq
    obtain ⟨hq, _⟩ := hq
    split at hq
    next => simp at hq
    next hk =>
      rw [← h.others k (Ne.symm hk)]
      exact hq
  · have hm : (ry.taken c false P.owner).dropped[mesh]? = none := by
      rw [SnapshotReceiver.taken, h.dropped]
      exact hm
    simp only [SnapshotReceiver.install]
    split
    next => rw [getElem?_erase_eq, hm, ite_self]
    next => exact hm

theorem Publication.chunkIndex_not_mem {done rest : List Chunk} (he : P.chunks = done ++ c :: rest) :
    c.chunkIndex ∉ done.map Chunk.chunkIndex := by
  have hnodup := P.chunkIndex_nodup
  rw [he, List.map_append, List.nodup_append] at hnodup
  intro hmem
  exact hnodup.2.2 _ hmem _ List.mem_cons_self rfl

theorem PendingSnapshot.size_add (hi : c.chunkIndex ∉ p.chunks) :
    (p.add c).chunks.size = p.chunks.size + 1 := by
  have hcontains : ¬ p.chunks.contains c.chunkIndex = true := by simpa using hi
  simp only [PendingSnapshot.add, ExtTreeMap.size_insert, if_neg hcontains]

theorem SnapshotReceiver.takeFrame_full {author : Birth} (now : Nat) (howner : P.owner = some author)
    {out : SnapshotReceiver × Taken} (hout : ry.chunk c false none P.owner = out) :
    ry.takeFrame (.topologyFull author now c) = (out.1, .taken out.2) := by
  rw [SnapshotReceiver.takeFrame, SnapshotReceiver.takeAuthoredChunk, ← howner, hout]
  rfl

/-- The chunk that completes an assembly installs it. -/
theorem Assembling.complete (h : Assembling P rx ry p) (ha : Admits P rx) (hc : c ∈ P.chunks)
    (hi : c.chunkIndex ∉ p.chunks) (hs : ¬ SnapshotReceiver.short (p.add c)) :
    ry.chunk c false none P.owner =
      (ry.taken c false P.owner).install c.mesh c.publisher (p.add c) P.full false := by
  have hjoined := h.joined hc
  have hadd : ¬ SnapshotReceiver.short (ry.joined c false P.owner) := by rwa [hjoined]
  have hfull := (h.part.add hc trivial).full hs
  have hcomplete : (ry.taken c false P.owner).againstComplete c P.full false none = none := by
    rw [SnapshotReceiver.againstComplete, SnapshotReceiver.heldBy, SnapshotReceiver.taken, h.held]
    exact ha.complete c hc
  have hchunk := SnapshotReceiver.chunk_complete none (h.joins ha hc hi) hadd
  rw [hjoined, hfull, hcomplete] at hchunk
  exact hchunk

/-- The chunks of a publication that are still to come, taken in their order, install it. -/
theorem Assembling.rest {author : Birth} {now : Nat} (howner : P.owner = some author) (ha : Admits P rx)
    {done rest : List Chunk} (h : Assembling P rx ry p) (he : P.chunks = done ++ rest) (hne : rest ≠ [])
    (hsize : p.chunks.size = done.length)
    (hindex : ∀ i : UInt32, i ∈ p.chunks → i ∈ done.map Chunk.chunkIndex) :
    Installed P rx (ry.takeFrames (rest.map (.topologyFull author now))) ∧
      ∀ a ∈ ry.frameAnswers (rest.map (.topologyFull author now)), a.Consistent := by
  induction rest generalizing done ry p with
  | nil => exact absurd rfl hne
  | cons c rest ih =>
    have hc : c ∈ P.chunks := by
      rw [he]
      exact List.mem_append_right _ List.mem_cons_self
    have hi : c.chunkIndex ∉ p.chunks :=
      fun hmem => Publication.chunkIndex_not_mem he (hindex _ hmem)
    have hsize' : (p.add c).chunks.size = (done ++ [c]).length := by
      rw [PendingSnapshot.size_add hi, hsize, List.length_append, List.length_singleton]
    have hshort := (h.part.add hc trivial).short_iff
    rw [hsize', he, List.length_append, List.length_append, List.length_singleton, List.length_cons]
      at hshort
    cases rest with
    | nil =>
      have hs : ¬ SnapshotReceiver.short (p.add c) := by
        rw [hshort]
        simp
      have hstep := SnapshotReceiver.takeFrame_full now howner (h.complete ha hc hi hs)
      refine ⟨?_, fun a hmem => ?_⟩
      · simp only [List.map_cons, List.map_nil, SnapshotReceiver.takeFrames, Shards.run,
          List.foldl_cons, List.foldl_nil, hstep]
        exact h.installed hc
      · simp only [List.map_cons, List.map_nil, SnapshotReceiver.frameAnswers, hstep,
          List.mem_singleton] at hmem
        rw [hmem]
        rfl
    | cons c' rest =>
      have hs : SnapshotReceiver.short (ry.joined c false P.owner) := by
        rw [h.joined hc, hshort]
        simp
      have hstep := SnapshotReceiver.takeFrame_full now howner
        (SnapshotReceiver.chunk_waiting none (h.joins ha hc hi) hs)
      have hrest := ih (h.waits hc) (by rw [he]; simp) (by simp) hsize' fun i hmem => by
        rw [List.map_append, List.mem_append]
        rw [PendingSnapshot.add, ExtTreeMap.mem_insert] at hmem
        rcases hmem with hmem | hmem
        · exact Or.inr (by simp [Std.compare_eq_iff_eq.mp hmem])
        · exact Or.inl (hindex i hmem)
      rw [List.map_cons, SnapshotReceiver.frameAnswers]
      refine ⟨?_, fun a hmem => ?_⟩
      · have hrun : ry.takeFrames (.topologyFull author now c :: (c' :: rest).map (.topologyFull author now))
            = (ry.waits c false P.owner).takeFrames ((c' :: rest).map (.topologyFull author now)) := by
          rw [SnapshotReceiver.takeFrames, Shards.run, List.foldl_cons, hstep]
          rfl
        rw [hrun]
        exact hrest.1
      · rw [hstep] at hmem
        rcases List.mem_cons.mp hmem with rfl | hmem
        · rfl
        · exact hrest.2 a hmem

/-- Every chunk of a publication, taken in order by a receiver that assembles nothing. -/
theorem Publication.taken {author : Birth} (now : Nat) (howner : P.owner = some author)
    (ha : Admits P rx) (hnone : rx.pending[P.key]? = none) :
    Installed P rx (rx.takeFrames (P.chunks.map (.topologyFull author now))) ∧
      ∀ a ∈ rx.frameAnswers (P.chunks.map (.topologyFull author now)), a.Consistent := by
  let p : PendingSnapshot := ⟨P.owner, P.version, P.snapshotId, P.count, ∅⟩
  have hpart : PartOf (fun _ => True) P p := ⟨rfl, rfl, rfl, rfl, fun i parts hi => by simp [p] at hi⟩
  have hstart : Assembling P rx rx p :=
    ⟨rfl, rfl, rfl, fun _ _ => rfl, Or.inr ⟨hnone, rfl⟩, hpart⟩
  have hall : P.chunks = [] ++ P.chunks := rfl
  refine hstart.rest howner ha hall ?_ (by simp [p]) fun i hi => by simp [p] at hi
  exact List.ne_nil_of_length_pos P.chunks_pos

end InOrder

end DistributedMesh
