import Mathlib.Data.List.Induction
import DistributedMesh.Shards
import DistributedMesh.TopologyChunks
import DistributedMesh.TopologyFloor

namespace DistributedMesh

open Std (ExtTreeMap)
open KeyedMaps

/-- One chunk of a publication on its way, with the image its taker judges it against. -/
structure Delivery where
  publication : Publication
  chunk : Chunk
  mem : chunk ∈ publication.chunks
  installed : Option InstalledProjection

/-- What publications are told apart by. -/
def Publication.identity (P : Publication) : Option Birth × String × PublisherId × Nat × Nat :=
  (P.owner, P.mesh, P.publisher, P.version, P.snapshotId)

/-- Each publication of a delivery sequence has its own identity. -/
def Distinct (ds : List Delivery) : Prop :=
  ∀ d ∈ ds, ∀ e ∈ ds, d.publication.identity = e.publication.identity → d.publication = e.publication

theorem Distinct.sub {ds es : List Delivery} (h : Distinct ds) (hsub : ∀ d ∈ es, d ∈ ds) :
    Distinct es := fun a ha b hb => h a (hsub a ha) b (hsub b hb)

theorem Distinct.upTo {ds before after : List Delivery} {d : Delivery} (h : Distinct ds)
    (he : ds = before ++ d :: after) : Distinct before ∧ Distinct (before ++ [d]) := by
  have hsplit : ds = (before ++ [d]) ++ after := by
    rw [he]
    simp
  have hnext : Distinct (before ++ [d]) := h.sub fun x hx => by
    rw [hsplit]
    exact List.mem_append_left _ hx
  exact ⟨hnext.sub fun x hx => List.mem_append_left _ hx, hnext⟩

def Delivered (ds : List Delivery) (P : Publication) (c : Chunk) : Prop :=
  ∃ d ∈ ds, d.publication = P ∧ d.chunk = c

/-- The assembly is of chunks of `P`, each of them `taken`. -/
structure PartOf (taken : Chunk → Prop) (P : Publication) (p : PendingSnapshot) : Prop where
  owner : p.owner = P.owner
  version : p.version = P.version
  snapshotId : p.snapshotId = P.snapshotId
  count : p.count = P.count
  chunks : ∀ (i : UInt32) (parts : Parts), p.chunks[i]? = some parts →
    ∃ c ∈ P.chunks, taken c ∧ c.chunkIndex = i ∧ c.parts = parts

theorem Delivered.mono {ds es : List Delivery} {P : Publication} {c : Chunk} (h : Delivered ds P c)
    (hsub : ∀ d ∈ ds, d ∈ es) : Delivered es P c := by
  obtain ⟨d, hd, hp, hc⟩ := h
  exact ⟨d, hsub d hd, hp, hc⟩

section PartOf

variable {taken : Chunk → Prop} {P : Publication} {p : PendingSnapshot}

theorem PartOf.mono {taken' : Chunk → Prop} (h : PartOf taken P p)
    (hsub : ∀ c, taken c → taken' c) : PartOf taken' P p := by
  refine ⟨h.owner, h.version, h.snapshotId, h.count, fun i parts hi => ?_⟩
  obtain ⟨c, hc, hdel, hidx, hparts⟩ := h.chunks i parts hi
  exact ⟨c, hc, hsub c hdel, hidx, hparts⟩

theorem PartOf.fresh {c : Chunk} (hc : c ∈ P.chunks) :
    PartOf taken P (.fresh P.owner c) := by
  obtain ⟨_, _, hversion, hsnapshot, hcount⟩ := Publication.mem_header hc
  refine ⟨rfl, hversion, hsnapshot, hcount, fun i parts hi => ?_⟩
  rw [PendingSnapshot.fresh] at hi
  simp at hi

theorem PartOf.add {c : Chunk} (h : PartOf taken P p) (hc : c ∈ P.chunks) (ht : taken c) :
    PartOf taken P (p.add c) := by
  refine ⟨h.owner, h.version, h.snapshotId, h.count, fun i parts hi => ?_⟩
  rw [PendingSnapshot.add, getElem?_insert_eq] at hi
  split at hi
  next hidx => exact ⟨c, hc, ht, hidx, Option.some.inj hi⟩
  next => exact h.chunks i parts hi

theorem PartOf.same {c : Chunk} (h : PartOf taken P p) (hc : c ∈ P.chunks) : p.same c := by
  obtain ⟨_, _, hversion, hsnapshot, _⟩ := Publication.mem_header hc
  exact ⟨h.version.trans hversion.symm, h.snapshotId.trans hsnapshot.symm⟩

theorem PartOf.index (h : PartOf taken P p) (i : UInt32) (hi : i ∈ p.chunks) : i ∈ P.chunks.map Chunk.chunkIndex := by
  obtain ⟨parts, hparts⟩ := (mem_iff_getElem? _ _).mp hi
  obtain ⟨c, hc, _, hidx, _⟩ := h.chunks i parts hparts
  exact List.mem_map.mpr ⟨c, hc, hidx⟩

theorem PartOf.size_le (h : PartOf taken P p) : p.chunks.size ≤ P.chunks.length := by
  have hle := size_le_length h.index
  rwa [List.length_map] at hle

theorem PartOf.short_iff (h : PartOf taken P p) : SnapshotReceiver.short p ↔ p.chunks.size < P.chunks.length := by
  have hle := h.size_le
  have hlt : P.chunks.length < UInt32.size := by
    rw [Publication.length_chunks]
    exact P.few
  rw [SnapshotReceiver.short, h.count, UInt32.lt_iff_toNat_lt, Publication.count_toNat,
    UInt32.toNat_ofNat_of_lt' (Nat.lt_of_le_of_lt hle hlt)]

/-- An assembly that is no longer short has every chunk of its publication. -/
theorem PartOf.has_all (h : PartOf taken P p) (hs : ¬ SnapshotReceiver.short p) {c : Chunk}
    (hc : c ∈ P.chunks) : p.chunks[c.chunkIndex]? = some c.parts ∧ taken c := by
  rw [h.short_iff] at hs
  have hlen : (P.chunks.map Chunk.chunkIndex).length ≤ p.chunks.size := by
    rw [List.length_map]
    omega
  have hmem := mem_of_length_le h.index hlen (List.mem_map.mpr ⟨c, hc, rfl⟩)
  obtain ⟨parts, hparts⟩ := (mem_iff_getElem? _ _).mp hmem
  obtain ⟨c', hc', hdel, hidx, hp⟩ := h.chunks _ parts hparts
  obtain rfl := Publication.chunkIndex_inj hc' hc hidx
  exact ⟨by rw [hparts, hp], hdel⟩

/-- A complete assembly is its publication's full. -/
theorem PartOf.full (h : PartOf taken P p) (hs : ¬ SnapshotReceiver.short p) : p.parts.full = P.full := by
  have hentries : p.chunks.toList = P.entries := by
    refine toList_eq_of_sorted P.entries_sorted fun i parts => ?_
    rw [P.mem_entries]
    constructor
    · intro hi
      obtain ⟨c, hc, _, hidx, hparts⟩ := h.chunks i parts hi
      exact ⟨c, hc, hidx, hparts⟩
    · rintro ⟨c, hc, rfl, rfl⟩
      exact (h.has_all hs hc).1
  have hparts : p.parts = P.full.parts := by
    rw [PendingSnapshot.parts, values, hentries]
    exact P.entries_parts
  rw [hparts, P.full.parts_full]

end PartOf

namespace SnapshotReceiver

def deliver (rx : SnapshotReceiver) (d : Delivery) : SnapshotReceiver × Taken :=
  rx.takeAuthoredChunk d.chunk d.publication.owner d.installed

def deliverAll (ds : List Delivery) : SnapshotReceiver := Shards.run deliver empty ds

theorem deliverAll_concat (ds : List Delivery) (d : Delivery) :
    deliverAll (ds ++ [d]) = ((deliverAll ds).deliver d).1 := Shards.run_concat _ _ _ _

/-- What is assembled and what is held are of publications that were delivered. -/
structure AssemblyInv (ds : List Delivery) (rx : SnapshotReceiver) : Prop where
  pending : ∀ (key : SourceKey) (p : PendingSnapshot), rx.pending[key]? = some p →
    ∃ d ∈ ds, key = d.publication.key ∧ PartOf (Delivered ds d.publication) d.publication p
  held : ∀ (mesh : String) (h : Held) (p : PendingSnapshot), rx.held[mesh]? = some h →
    h.publication = some p → ∃ d ∈ ds, d.publication.mesh = mesh ∧
      d.publication.publisher = h.publisher ∧ d.publication.version = h.version ∧
      PartOf (Delivered ds d.publication) d.publication p ∧ ¬ short p

theorem AssemblyInv.mono {ds es : List Delivery} {rx : SnapshotReceiver} (h : AssemblyInv ds rx)
    (hsub : ∀ d ∈ ds, d ∈ es) : AssemblyInv es rx := by
  refine ⟨fun key p hp => ?_, fun mesh k p hk hp => ?_⟩
  · obtain ⟨d, hd, hkey, hpart⟩ := h.pending key p hp
    exact ⟨d, hsub d hd, hkey, hpart.mono fun c hc => hc.mono hsub⟩
  · obtain ⟨d, hd, hm, hpub, hver, hpart, hs⟩ := h.held mesh k p hk hp
    exact ⟨d, hsub d hd, hm, hpub, hver, hpart.mono (fun c hc => hc.mono hsub), hs⟩

section Deliver

variable {ds : List Delivery} {d : Delivery} {rx : SnapshotReceiver}

theorem sourceKey_delivery (d : Delivery) :
    sourceKey d.chunk false d.publication.owner = d.publication.key := by
  obtain ⟨hmesh, hpublisher, _⟩ := Publication.mem_header d.mem
  rw [sourceKey, hmesh, hpublisher, Header.key]

/-- An assembly that a chunk joins is of the chunk's own publication. -/
theorem AssemblyInv.joined (h : AssemblyInv ds rx) (hd : Distinct (ds ++ [d])) :
    PartOf (Delivered (ds ++ [d]) d.publication) d.publication
      (rx.joined d.chunk false d.publication.owner) := by
  obtain ⟨_, _, hversion, hsnapshot, _⟩ := Publication.mem_header d.mem
  have hself : Delivered (ds ++ [d]) d.publication d.chunk := ⟨d, by simp, rfl, rfl⟩
  have hsub : ∀ e ∈ ds, e ∈ ds ++ [d] := fun e he => List.mem_append_left _ he
  refine PartOf.add ?_ d.mem hself
  unfold assembly
  rw [sourceKey_delivery]
  split
  next p hp =>
    by_cases hs : p.same d.chunk
    · rw [if_pos hs]
      obtain ⟨e, he, hkey, hpart⟩ := h.pending _ p hp
      have hsame : d.publication = e.publication := by
        refine hd d (by simp) e (hsub e he) ?_
        have hver : d.publication.version = e.publication.version := by
          rw [← hversion, ← hs.1, hpart.version]
        have hsnap : d.publication.snapshotId = e.publication.snapshotId := by
          rw [← hsnapshot, ← hs.2, hpart.snapshotId]
        obtain ⟨howner, hmesh, hpub, _⟩ := SourceKey.mk.inj hkey
        rw [Publication.identity, Publication.identity, howner, hmesh, hpub, hver, hsnap]
      rw [hsame]
      exact hpart.mono fun c hc => hc.mono hsub
    · rw [if_neg hs]
      exact PartOf.fresh d.mem
  next => exact PartOf.fresh d.mem

/-- What an installed snapshot carries: its publication, and nothing else. -/
structure Carries (i : Install) (P : Publication) : Prop where
  mesh : i.mesh = P.mesh
  publisher : i.publisher = P.publisher
  version : i.topologyVersion = P.version
  snapshotId : i.snapshotId = P.snapshotId
  full : i.full = P.full

theorem AssemblyInv.taken (h : AssemblyInv ds rx) (c : Chunk) (fromRead : Bool) (owner : Option Birth) :
    AssemblyInv ds (rx.taken c fromRead owner) := by
  refine ⟨fun key p hp => ?_, h.held⟩
  rw [SnapshotReceiver.taken, getElem?_erase_eq] at hp
  split at hp
  next => simp at hp
  next => exact h.pending key p hp

/-- One delivery keeps the invariant, and what it installs is a publication delivered whole. -/
theorem AssemblyInv.deliver (h : AssemblyInv ds rx) (hd : Distinct (ds ++ [d])) :
    AssemblyInv (ds ++ [d]) (rx.deliver d).1 ∧
      ∀ i, (rx.deliver d).2 = .installed i → Carries i d.publication ∧
        ∀ c ∈ d.publication.chunks, Delivered (ds ++ [d]) d.publication c := by
  have hsub : ∀ e ∈ ds, e ∈ ds ++ [d] := fun e he => List.mem_append_left _ he
  have hmono : AssemblyInv (ds ++ [d]) rx := h.mono hsub
  obtain ⟨hmesh, hpublisher, _⟩ := Publication.mem_header d.mem
  unfold SnapshotReceiver.deliver takeAuthoredChunk
  generalize hout : rx.chunk d.chunk false d.installed d.publication.owner = out
  have hstep := chunk_step rx d.chunk false d.installed d.publication.owner
  rw [hout] at hstep
  cases hstep with
  | refused => exact ⟨hmono, fun i hi => by simp at hi⟩
  | waiting =>
    refine ⟨⟨fun key p hp => ?_, hmono.held⟩, fun i hi => by simp at hi⟩
    rw [waits, getElem?_insert_eq] at hp
    split at hp
    next hkey =>
      rw [sourceKey_delivery] at hkey
      cases hp
      exact ⟨d, by simp, hkey.symm, h.joined hd⟩
    next => exact hmono.pending key p hp
  | conflicting => exact ⟨hmono.taken _ _ _, fun i hi => by simp at hi⟩
  | installed _ hs =>
    have hpart := h.joined hd
    refine ⟨⟨fun key p hp => ?_, fun mesh k p hk hp => ?_⟩, fun i hi => ?_⟩
    · simp only [install, ExtTreeMap.getElem?_filter', Option.filter_eq_some_iff] at hp
      exact (hmono.taken _ _ _).pending key p hp.1
    · simp only [install, getElem?_insert_eq] at hk
      split at hk
      next hm =>
        cases hk
        cases hp
        exact ⟨d, by simp, hmesh.symm.trans hm, hpublisher.symm, hpart.version.symm, hpart, hs⟩
      next => exact hmono.held mesh k p hk hp
    · cases hi
      refine ⟨⟨hmesh, hpublisher, hpart.version, hpart.snapshotId, hpart.full hs⟩, fun c hc => ?_⟩
      exact (hpart.has_all hs hc).2

/-- The receiver, or the image the chunk is judged against, has the delivery's publication or a
newer copy of its publisher. -/
def Settled (rx : SnapshotReceiver) (d : Delivery) : Prop :=
  (∃ h, rx.held[d.publication.mesh]? = some h ∧ h.publisher = d.publication.publisher ∧
    d.publication.version < h.version) ∨
  (∃ h p, rx.held[d.publication.mesh]? = some h ∧ h.publisher = d.publication.publisher ∧
    h.version = d.publication.version ∧ h.publication = some p ∧ p.owner = d.publication.owner ∧
    p.snapshotId = d.publication.snapshotId) ∨
  ∃ i, d.installed = some i ∧ i.publisher = d.publication.publisher ∧
    i.version = d.publication.version ∧ i.snapshotId = some d.publication.snapshotId

theorem AssemblyInv.settled (h : AssemblyInv ds rx) (hd : Distinct (ds ++ [d]))
    (hs : rx.Settled d) (i : Install) : (rx.deliver d).2 ≠ .installed i := by
  obtain ⟨hmesh, hpublisher, hversion, hsnapshot, hcount⟩ := Publication.mem_header d.mem
  unfold SnapshotReceiver.deliver takeAuthoredChunk
  generalize hout : rx.chunk d.chunk false d.installed d.publication.owner = out
  have hstep := chunk_step rx d.chunk false d.installed d.publication.owner
  rw [hout] at hstep
  cases hstep with
  | refused => simp
  | waiting => simp
  | conflicting => simp
  | installed hj hshort hr =>
    exfalso
    rcases hs with ⟨k, hk, hp, hlt⟩ | ⟨k, p, hk, hp, hv, hpub, howner, hsnap⟩ | ⟨image, himage, hp, hv, hsnap⟩
    · have hle := hj.not_older (hmesh ▸ hk) (hp.trans hpublisher.symm)
      omega
    · obtain ⟨e, he, hem, hep, hev, hpart, hfull⟩ := h.held _ k p hk hpub
      have hsame : d.publication = e.publication := by
        refine hd d (by simp) e (List.mem_append_left _ he) ?_
        rw [Publication.identity, Publication.identity, hem, hep, hp, hev, hv, ← howner, hpart.owner,
          ← hsnap, hpart.snapshotId]
      rw [← hsame] at hpart
      have hget := (hpart.has_all hfull d.mem).1
      have hby : rx.heldBy d.chunk.mesh d.chunk.publisher = some k :=
        (heldBy_eq_some _ _ _ _).mpr ⟨hmesh ▸ hk, hp.trans hpublisher.symm⟩
      have hheld := hj.held
      rw [againstHeld, hby] at hheld
      simp [hversion, hv, hpub, hsnap, hsnapshot, howner, PendingSnapshot.has, hpart.count, hcount,
        hget] at hheld
    · rw [againstComplete] at hr
      split at hr
      next => simp at hr
      next =>
        rw [himage] at hr
        simp only [hp, hpublisher, hv, hversion, hsnap, hsnapshot, Option.filter_some, and_self,
          decide_true, if_true, Option.bind_eq_bind, Option.bind_some] at hr
        split at hr
        next => simp at hr
        next => simp at hr

end Deliver

theorem AssemblyInv.run {ds : List Delivery} (hd : Distinct ds) : AssemblyInv ds (deliverAll ds) := by
  induction ds using List.reverseRecOn with
  | nil =>
    refine ⟨fun key p hp => ?_, fun mesh h p hh => ?_⟩
    · change (∅ : ExtTreeMap SourceKey PendingSnapshot sourceKeyCode.cmp)[key]? = some p at hp
      simp at hp
    · change (∅ : ExtTreeMap String Held)[mesh]? = some h at hh
      simp at hh
  | append_singleton ds d ih =>
    rw [deliverAll_concat]
    exact ((ih (hd.upTo rfl).1).deliver hd).1

end SnapshotReceiver

end DistributedMesh
