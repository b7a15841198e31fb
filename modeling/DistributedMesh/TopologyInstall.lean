import DistributedMesh.TopologyAssembly

namespace DistributedMesh

open Std (ExtTreeMap)
open KeyedMaps

namespace SnapshotReceiver

/-- One publication alone, on its way to be installed: its mesh is not held, and its assembly has
every chunk delivered. -/
structure Progress (P : Publication) (ds : List Delivery) (rx : SnapshotReceiver) : Prop where
  held : rx.held[P.mesh]? = none
  short : ∀ p, rx.pending[P.key]? = some p → short p
  has : ∀ d ∈ ds, ∃ p, rx.pending[P.key]? = some p ∧ d.chunk.chunkIndex ∈ p.chunks

section Alone

variable {P : Publication} {ds : List Delivery} {d : Delivery} {rx : SnapshotReceiver}

/-- The assembly of a publication alone is the one its next chunk joins. -/
theorem AssemblyInv.alone (h : AssemblyInv ds rx) (hall : ∀ e ∈ ds, e.publication = P)
    {p : PendingSnapshot} (hp : rx.pending[P.key]? = some p) : PartOf (Delivered ds P) P p := by
  obtain ⟨e, he, _, hpart⟩ := h.pending _ p hp
  rw [hall e he] at hpart
  exact hpart

theorem Progress.deliver (h : AssemblyInv ds rx) (hall : ∀ e ∈ ds, e.publication = P)
    (hd : d.publication = P) (hpr : Progress P ds rx)
    (hrep : ∀ r, (rx.deliver d).2 = .refused r → ∃ e ∈ ds, e.chunk = d.chunk) :
    (∃ i, (rx.deliver d).2 = .installed i) ∨ Progress P (ds ++ [d]) (rx.deliver d).1 := by
  obtain ⟨_, _, _, _, hcount⟩ := Publication.mem_header d.mem
  have hkey : sourceKey d.chunk false d.publication.owner = P.key := by
    rw [sourceKey_delivery, hd]
  have hsame : ∀ p, rx.pending[P.key]? = some p → p.same d.chunk :=
    fun p hp => (h.alone hall hp).same (hd ▸ d.mem)
  unfold SnapshotReceiver.deliver takeAuthoredChunk at hrep ⊢
  generalize hout : rx.chunk d.chunk false d.installed d.publication.owner = out at hrep ⊢
  have hstep := chunk_step rx d.chunk false d.installed d.publication.owner
  rw [hout] at hstep
  cases hstep with
  | refused r =>
    obtain ⟨e, he, hc⟩ := hrep r rfl
    refine Or.inr ⟨hpr.held, hpr.short, fun x hx => ?_⟩
    rcases List.mem_append.mp hx with hx | hx
    · exact hpr.has x hx
    · rw [List.mem_singleton.mp hx, ← hc]
      exact hpr.has e he
  | waiting _ hs =>
    have hget : (rx.waits d.chunk false d.publication.owner).pending[P.key]? =
        some (rx.joined d.chunk false d.publication.owner) := by
      rw [waits, hkey, getElem?_insert_eq, if_pos rfl]
    refine Or.inr ⟨hpr.held, fun p hp => ?_, fun x hx => ⟨_, hget, ?_⟩⟩
    · rw [hget] at hp
      cases hp
      exact hs
    · rw [joined, PendingSnapshot.add, ExtTreeMap.mem_insert]
      rcases List.mem_append.mp hx with hx | hx
      · obtain ⟨p, hp, hmem⟩ := hpr.has x hx
        have hassembly : rx.assembly (sourceKey d.chunk false d.publication.owner) d.chunk = p := by
          simp only [assembly, hkey, hp, if_pos (hsame p hp)]
        rw [hassembly]
        exact Or.inr hmem
      · rw [List.mem_singleton.mp hx]
        exact Or.inl Std.ReflCmp.compare_self
  | conflicting r hj =>
    -- the chunk was delivered before, so its assembly has it and it does not join
    exfalso
    obtain ⟨e, he, hc⟩ := hrep r rfl
    obtain ⟨p, hp, hmem⟩ := hpr.has e he
    obtain ⟨parts, hparts⟩ := (mem_iff_getElem? _ _).mp hmem
    have hpcount : p.count = d.chunk.chunkCount := by
      rw [(h.alone hall hp).count, hcount, hd]
    have hpending := hj.pending
    rw [hkey, againstPending, hp] at hpending
    rw [hc] at hparts
    simp [hsame p hp, PendingSnapshot.has, hpcount, hparts] at hpending
  | installed => exact Or.inl ⟨_, rfl⟩

theorem Progress.not_whole (h : AssemblyInv ds rx) (hall : ∀ e ∈ ds, e.publication = P)
    (hpr : Progress P ds rx) (hw : ∀ c ∈ P.chunks, ∃ e ∈ ds, e.chunk = c) : False := by
  obtain ⟨c₀, hc₀⟩ := List.exists_mem_of_length_pos P.chunks_pos
  obtain ⟨e₀, he₀, _⟩ := hw c₀ hc₀
  obtain ⟨p, hp, _⟩ := hpr.has e₀ he₀
  have hshort := (h.alone hall hp).short_iff.mp (hpr.short p hp)
  have hmem : ∀ i ∈ P.chunks.map Chunk.chunkIndex, i ∈ p.chunks := by
    intro i hi
    obtain ⟨c, hc, rfl⟩ := List.mem_map.mp hi
    obtain ⟨e, he, rfl⟩ := hw c hc
    obtain ⟨q, hq, hm⟩ := hpr.has e he
    rw [hp] at hq
    cases hq
    exact hm
  have hlen := length_le_size P.chunkIndex_nodup hmem
  rw [List.length_map] at hlen
  omega

end Alone

/-- The delivery `d` after `before` is answered Installed. -/
def Installs (before : List Delivery) (d : Delivery) (i : Install) : Prop :=
  ((deliverAll before).deliver d).2 = .installed i

/-- Some delivery of `ds` installed the publication. -/
def AlreadyInstalled (ds : List Delivery) (P : Publication) : Prop :=
  ∃ before d after i, ds = before ++ d :: after ∧ d.publication = P ∧ Installs before d i

theorem alone_installs {P : Publication} {ds : List Delivery} (hall : ∀ e ∈ ds, e.publication = P)
    (hrep : ∀ before d after r, ds = before ++ d :: after →
      ((deliverAll before).deliver d).2 = .refused r → ∃ e ∈ before, e.chunk = d.chunk) :
    AlreadyInstalled ds P ∨ Progress P ds (deliverAll ds) := by
  induction ds using List.reverseRecOn with
  | nil =>
    refine Or.inr ⟨?_, fun p hp => ?_, by simp⟩
    · exact ExtTreeMap.getElem?_empty
    · have hp : (∅ : ExtTreeMap SourceKey PendingSnapshot sourceKeyCode.cmp)[P.key]? = some p := hp
      simp at hp
  | append_singleton ds d ih =>
    have hprior : ∀ e ∈ ds, e.publication = P := fun e he => hall e (List.mem_append_left _ he)
    have hd : d.publication = P := hall d (by simp)
    rcases ih hprior fun before x after r he => hrep before x (after ++ [d]) r (by rw [he]; simp) with
      ⟨before, x, after, i, he, hx, hi⟩ | hpr
    · exact Or.inl ⟨before, x, after ++ [d], i, by rw [he]; simp, hx, hi⟩
    · have hdistinct : Distinct ds := fun a ha b hb _ => (hprior a ha).trans (hprior b hb).symm
      rcases hpr.deliver (AssemblyInv.run hdistinct) hprior hd (fun r => hrep ds d [] r rfl) with
        ⟨i, hi⟩ | hnext
      · exact Or.inl ⟨ds, d, [], i, rfl, hd, hi⟩
      · rw [deliverAll_concat]
        exact Or.inr hnext

/-- Snapshot chunks install atomically, in every delivery sequence that brings no chunk of an
installed publication back while the mesh is past it to another. -/
theorem snapshot_chunks_install {ds : List Delivery} (hd : Distinct ds)
    (hs : ∀ before d after, ds = before ++ d :: after → AlreadyInstalled before d.publication →
      (deliverAll before).Settled d) :
    (∀ before d after i, ds = before ++ d :: after → Installs before d i →
      Carries i d.publication ∧ ∀ c ∈ d.publication.chunks, Delivered (before ++ [d]) d.publication c) ∧
    (∀ before d between e after i j, ds = before ++ d :: between ++ e :: after →
      Installs before d i → Installs (before ++ d :: between) e j →
      d.publication.identity ≠ e.publication.identity) ∧
    (∀ P, (∀ d ∈ ds, d.publication = P) → (∀ c ∈ P.chunks, ∃ d ∈ ds, d.chunk = c) →
      (∀ before d after r, ds = before ++ d :: after →
        ((deliverAll before).deliver d).2 = .refused r → ∃ e ∈ before, e.chunk = d.chunk) →
      AlreadyInstalled ds P) ∧
    ∀ d ∈ ds, ∀ P : Publication, d.publication = P →
      (∀ parts i n i' n', i ≤ i' → n ≤ n' → (P.encode (P.toHeader.shape parts i n)).length ≤
        (P.encode (P.toHeader.shape parts i' n')).length) →
      (P.full.items = [] → (P.encode (P.toHeader.shape ⟨[], [], []⟩ 0 1)).length ≤ maxFrame) →
      ∀ c ∈ P.chunks, (P.encode c).length ≤ maxFrame := by
  refine ⟨fun before d after i he hi => ?_, fun before d between e after i j he hi hj hident => ?_,
    fun P hall hw hrep => ?_, fun d _ P _ hgrow hempty c hc => ?_⟩
  · obtain ⟨hprior, hnext⟩ := hd.upTo he
    exact ((AssemblyInv.run hprior).deliver hnext).2 i hi
  · have hsame : d.publication = e.publication := hd d (by simp [he]) e (by simp [he]) hident
    obtain ⟨hprior, hnext⟩ := hd.upTo he
    have hsettled := hs (before ++ d :: between) e after he ⟨before, d, between, i, rfl, hsame, hi⟩
    exact (AssemblyInv.run hprior).settled hnext hsettled j hj
  · rcases alone_installs hall hrep with hin | hpr
    · exact hin
    · exact (hpr.not_whole (AssemblyInv.run hd) hall hw).elim
  · exact chunksMeasured_fit P.complete hgrow hempty hc

/-- A publication of an empty mesh at version 5: one chunk. -/
def emptyPublication (snapshotId : Nat) : Publication where
  owner := none
  mesh := "mesh1"
  publisher := alice
  forwardedBy := none
  version := 5
  snapshotId := snapshotId
  full := Full.new [] [] []
  encode _ := List.replicate 64 0
  complete := by simp [refusedOf, Full.items_new_empty, Chunking.packInOrder]
  few := by
    rw [runsOf_empty Full.items_new_empty]
    decide

def emptyDelivery (snapshotId : Nat) : Delivery where
  publication := emptyPublication snapshotId
  chunk := ⟨"mesh1", alice, none, 5, snapshotId, 0, 1, ⟨[], [], []⟩⟩
  mem := by
    have hget : (emptyPublication snapshotId).chunks[0]? =
        some ⟨"mesh1", alice, none, 5, snapshotId, 0, 1, ⟨[], [], []⟩⟩ := by
      have hruns : (emptyPublication snapshotId).runs = [[]] := runsOf_empty Full.items_new_empty _ _
      rw [Publication.chunks_get, Publication.count, hruns]
      rfl
    exact List.mem_iff_getElem?.mpr ⟨0, hget⟩
  installed := none

theorem emptyDelivery_distinct {ds : List Delivery} (h : ∀ d ∈ ds, ∃ s, d = emptyDelivery s) :
    Distinct ds := by
  intro d hd e he hident
  obtain ⟨s, rfl⟩ := h d hd
  obtain ⟨t, rfl⟩ := h e he
  simp only [Publication.identity, emptyDelivery, emptyPublication, Prod.mk.injEq, true_and] at hident
  rw [hident]

def Taken.isInstalled : Taken → Bool
  | .installed _ => true
  | _ => false

theorem installs_of_isInstalled {before : List Delivery} {d : Delivery}
    (h : Taken.isInstalled ((deliverAll before).deliver d).2 = true) : ∃ i, Installs before d i := by
  unfold Installs
  cases ht : ((deliverAll before).deliver d).2 with
  | installed i => exact ⟨i, rfl⟩
  | waiting => simp [ht, Taken.isInstalled] at h
  | refused => simp [ht, Taken.isInstalled] at h

/-- What a run has installed reached it in whole. -/
theorem AlreadyInstalled.delivered {ds : List Delivery} {P : Publication} {c : Chunk} (hd : Distinct ds)
    (h : AlreadyInstalled ds P) (hc : c ∈ P.chunks) : ∃ e ∈ ds, e.chunk = c := by
  obtain ⟨before, d, after, i, he, rfl, hi⟩ := h
  obtain ⟨hprior, hnext⟩ := hd.upTo he
  obtain ⟨e, hmem, -, hchunk⟩ := ((AssemblyInv.run hprior).deliver hnext).2 i hi |>.2 c hc
  refine ⟨e, ?_, hchunk⟩
  rw [he, List.append_cons]
  exact List.mem_append_left after hmem

/-- A ready member of a mesh. -/
def memberOf (mesh nodeId : String) : MeshDigest where
  fabricId := "f"
  node := ⟨mesh, "node", nodeId, "p", nodeId, nodeId, "10.0.0.1:7000", "b1", none, none⟩
  status := .ready
  adminApiBase := none
  digestSeq := 1
  emittedAtRafkaMs := 0
  dataDir := none
  meshId := none
  inFlight := none
  load := none
  gossip := none
  isPrimary := none
  isFabricPrimary := none

def twoMembers (mesh : String) : Full := Full.new [memberOf mesh "n1", memberOf mesh "n2"] [] []

/-- An encoding of which a frame holds one member. -/
def memberBytes (c : Chunk) : Bytes := List.replicate (64 + 2000 * c.parts.digests.length) 0

def headerOf (mesh : String) (version snapshotId : Nat) : Header := ⟨none, mesh, alice, none, version, snapshotId⟩

/-- Two members of a mesh, published in two chunks. -/
def mesh1Publication : Publication where
  toHeader := headerOf "mesh1" 1 1
  full := twoMembers "mesh1"
  encode := memberBytes
  complete := by decide +kernel
  few := by decide +kernel

def mesh2Publication : Publication where
  toHeader := headerOf "mesh2" 7 3
  full := twoMembers "mesh2"
  encode := memberBytes
  complete := by decide +kernel
  few := by decide +kernel

def mesh1First : Delivery :=
  ⟨mesh1Publication, (headerOf "mesh1" 1 1).shape ⟨[memberOf "mesh1" "n1"], [], []⟩ 0 2, by decide +kernel, none⟩

def mesh1Second : Delivery :=
  ⟨mesh1Publication, (headerOf "mesh1" 1 1).shape ⟨[memberOf "mesh1" "n2"], [], []⟩ 1 2, by decide +kernel, none⟩

def mesh2First : Delivery :=
  ⟨mesh2Publication, (headerOf "mesh2" 7 3).shape ⟨[memberOf "mesh2" "n1"], [], []⟩ 0 2, by decide +kernel, none⟩

def mesh2Second : Delivery :=
  ⟨mesh2Publication, (headerOf "mesh2" 7 3).shape ⟨[memberOf "mesh2" "n2"], [], []⟩ 1 2, by decide +kernel, none⟩

/-- The chunks of two meshes' publications, interleaved and out of order, one of them twice. -/
def interleaved : List Delivery := [mesh1First, mesh2Second, mesh1Second, mesh1Second, mesh2First]

theorem interleaved_distinct : Distinct interleaved := by
  have hpublication : ∀ d ∈ interleaved, d.publication = mesh1Publication ∨ d.publication = mesh2Publication := by
    simp [interleaved, mesh1First, mesh1Second, mesh2First, mesh2Second]
  have hapart : mesh1Publication.identity ≠ mesh2Publication.identity := by decide
  intro d hd e he hidentity
  rcases hpublication d hd with hd | hd <;> rcases hpublication e he with he | he
  · rw [hd, he]
  · exact absurd (hd ▸ he ▸ hidentity) hapart
  · exact absurd (hd ▸ he ▸ hidentity).symm hapart
  · rw [hd, he]

theorem snapshot_chunks_install_interleaved :
    (∃ i, Installs [mesh1First, mesh2Second] mesh1Second i ∧ Carries i mesh1Publication) ∧
      (∃ i, Installs [mesh1First, mesh2Second, mesh1Second, mesh1Second] mesh2First i ∧ Carries i mesh2Publication) ∧
      ∀ i, ¬ Installs [mesh1First, mesh2Second, mesh1Second] mesh1Second i := by
  have hheld : (deliverAll [mesh1First, mesh2Second, mesh1Second]).held["mesh1"]?.map (fun h => (h.publisher, h.version,
      h.publication.map fun p => (p.owner, p.snapshotId))) = some (alice, 1, some (none, 1)) := by
    decide +kernel
  have hs : ∀ before d after, interleaved = before ++ d :: after →
      AlreadyInstalled before d.publication → (deliverAll before).Settled d := by
    intro before d after he hin
    obtain ⟨e, hmem, hchunk⟩ := hin.delivered (interleaved_distinct.upTo he).1 d.mem
    have hchunks : interleaved.map Delivery.chunk = before.map Delivery.chunk ++ d.chunk :: after.map Delivery.chunk := by
      rw [he, List.map_append, List.map_cons]
    -- A chunk comes a second time at the fourth delivery only.
    have hfourth : before.length = 3 := by
      have hlt : before.length < 5 := by
        have hlen : 5 = (before ++ d :: after).length := congrArg List.length he
        rw [List.length_append, List.length_cons] at hlen
        omega
      have hrepeats : ∀ k < 5, ∀ c ∈ (interleaved.map Delivery.chunk)[k]?,
          c ∈ (interleaved.map Delivery.chunk).take k → k = 3 := by decide
      refine hrepeats before.length hlt d.chunk ?_ ?_
      · rw [hchunks, List.getElem?_append_right (by simp)]
        simp
      · rw [hchunks, List.take_append_of_le_length (by simp), ← List.length_map Delivery.chunk, List.take_length, ← hchunk]
        exact List.mem_map_of_mem hmem
    have hsplit : before ++ d :: after = [mesh1First, mesh2Second, mesh1Second] ++ [mesh1Second, mesh2First] := he.symm
    obtain ⟨rfl, hrest⟩ := List.append_inj hsplit hfourth
    cases hrest
    obtain ⟨h, hh, hfields⟩ := Option.map_eq_some_iff.mp hheld
    simp only [Prod.mk.injEq] at hfields
    obtain ⟨hp, hv, hpub⟩ := hfields
    obtain ⟨p, hpp, hids⟩ := Option.map_eq_some_iff.mp hpub
    simp only [Prod.mk.injEq] at hids
    exact Or.inr (Or.inl ⟨h, p, hh, hp, hv, hpp, hids.1, hids.2⟩)
  obtain ⟨hcarries, honce, _⟩ := snapshot_chunks_install interleaved_distinct hs
  obtain ⟨i, hi⟩ : ∃ i, Installs [mesh1First, mesh2Second] mesh1Second i := installs_of_isInstalled (by decide +kernel)
  obtain ⟨j, hj⟩ : ∃ j, Installs [mesh1First, mesh2Second, mesh1Second, mesh1Second] mesh2First j :=
    installs_of_isInstalled (by decide +kernel)
  refine ⟨⟨i, hi, (hcarries [mesh1First, mesh2Second] mesh1Second [mesh1Second, mesh2First] i rfl hi).1⟩,
    ⟨j, hj, (hcarries [mesh1First, mesh2Second, mesh1Second, mesh1Second] mesh2First [] j rfl hj).1⟩, ?_⟩
  intro k hk
  exact honce [mesh1First, mesh2Second] mesh1Second [] mesh1Second [mesh2First] i k rfl hi hk rfl

/-- A publication repeated after another at its version is installed a second time. -/
theorem repeated_publication_installs_twice :
    Distinct [emptyDelivery 1, emptyDelivery 2, emptyDelivery 1] ∧
      (∃ i, Installs [] (emptyDelivery 1) i) ∧
      ∃ j, Installs [emptyDelivery 1, emptyDelivery 2] (emptyDelivery 1) j := by
  refine ⟨emptyDelivery_distinct (by simp), installs_of_isInstalled ?_, installs_of_isInstalled ?_⟩
  · decide +kernel
  · decide +kernel

end SnapshotReceiver

end DistributedMesh
