import DistributedMesh.StoreCodec
import DistributedMesh.TopologyReceiver
import DistributedMesh.TransportChunking

namespace DistributedMesh

open Std (ExtTreeMap)
open KeyedMaps Chunking

inductive Item where
  | digest (d : MeshDigest)
  | inFlight (o : LifecycleOp)
  | deleted (o : LifecycleOp)

def Item.digest? : Item → Option MeshDigest
  | .digest d => some d
  | _ => none

def Item.inFlight? : Item → Option LifecycleOp
  | .inFlight o => some o
  | _ => none

def Item.deleted? : Item → Option LifecycleOp
  | .deleted o => some o
  | _ => none

def split (run : List Item) : Parts :=
  ⟨run.filterMap Item.digest?, run.filterMap Item.inFlight?, run.filterMap Item.deleted?⟩

def maxFrame : Nat := maxMessageBytes

/-- A full's members, overlays and departures, in their order. -/
def Full.items (full : Full) : List Item :=
  (values full.digests).map .digest ++ (values full.inFlight).map .inFlight ++
    (values full.deleted).map .deleted

def Full.parts (full : Full) : Parts :=
  ⟨values full.digests, values full.inFlight, values full.deleted⟩

section Measured

variable {T : Type}

/-- A run's encoding with the widest index and count, refused when it does not fit. -/
def measure (shape : Parts → UInt32 → UInt32 → T) (encode : T → Bytes) (run : List Item) :
    Except Nat Bytes :=
  let bytes := encode (shape (split run) 0xffffffff 0xffffffff)
  if bytes.length > maxFrame then .error bytes.length else .ok bytes

def refusedOf (full : Full) (shape : Parts → UInt32 → UInt32 → T) (encode : T → Bytes) : List Nat :=
  (packInOrder (measure shape encode) full.items).2

/-- The runs a full is cut into: an empty full is one empty run. -/
def runsOf (full : Full) (shape : Parts → UInt32 → UInt32 → T) (encode : T → Bytes) :
    List (List Item) :=
  let sized := (packInOrder (measure shape encode) full.items).1.map Prod.fst
  if sized.isEmpty then [[]] else sized

def chunksMeasured (full : Full) (shape : Parts → UInt32 → UInt32 → T) (encode : T → Bytes) :
    List T :=
  let runs := runsOf full shape encode
  runs.mapIdx fun k run => shape (split run) (UInt32.ofNat k) (UInt32.ofNat runs.length)

end Measured

theorem Parts.append_empty (a : Parts) : a.append ⟨[], [], []⟩ = a := by
  simp [Parts.append]

theorem Parts.append_assoc (a b c : Parts) : (a.append b).append c = a.append (b.append c) := by
  simp [Parts.append]

theorem split_append (a b : List Item) : split (a ++ b) = (split a).append (split b) := by
  simp [split, Parts.append]

theorem foldl_append_split (runs : List (List Item)) (a : Parts) :
    (runs.map split).foldl Parts.append a = a.append (split runs.flatten) := by
  induction runs generalizing a with
  | nil => exact a.append_empty.symm
  | cons run runs ih =>
    rw [List.map_cons, List.foldl_cons, ih, List.flatten_cons, split_append, Parts.append_assoc]

theorem split_items (full : Full) : split full.items = full.parts := by
  have hd : ∀ l : List MeshDigest, split (l.map .digest) = ⟨l, [], []⟩ := by
    intro l
    induction l with
    | nil => rfl
    | cons d l ih =>
      rw [List.map_cons, ← List.singleton_append, split_append, ih]
      rfl
  have hi : ∀ l : List LifecycleOp, split (l.map .inFlight) = ⟨[], l, []⟩ := by
    intro l
    induction l with
    | nil => rfl
    | cons d l ih =>
      rw [List.map_cons, ← List.singleton_append, split_append, ih]
      rfl
  have hx : ∀ l : List LifecycleOp, split (l.map .deleted) = ⟨[], [], l⟩ := by
    intro l
    induction l with
    | nil => rfl
    | cons d l ih =>
      rw [List.map_cons, ← List.singleton_append, split_append, ih]
      rfl
  rw [Full.items, split_append, split_append, hd, hi, hx]
  simp [Parts.append, Full.parts]

theorem Full.eq_of_maps {a b : Full} (hd : a.digests = b.digests) (hi : a.inFlight = b.inFlight)
    (hx : a.deleted = b.deleted) : a = b := by
  have he : a.byEndpoint = b.byEndpoint := Full.byEndpoint_congr fun id => by rw [hd]
  cases a
  cases b
  simp_all

/-- A full is rebuilt from what it lists. -/
theorem Full.parts_full (full : Full) : full.parts.full = full :=
  Full.eq_of_maps full.digests_keyed.insertAll_values full.inFlight_keyed.insertAll_values
    full.deleted_keyed.insertAll_values

theorem Full.items_new_empty : (Full.new [] [] []).items = [] := by
  simp [Full.items, Full.new, insertAll, values]

section Measured

variable {T : Type} {full : Full} {shape : Parts → UInt32 → UInt32 → T} {encode : T → Bytes}

theorem runsOf_flatten (h : refusedOf full shape encode = []) :
    (runsOf full shape encode).flatten = full.items := by
  have hpack := packInOrder_flatten h
  unfold runsOf
  dsimp only
  split
  next hemp =>
    rw [List.isEmpty_iff.mp hemp] at hpack
    rw [← hpack]
    rfl
  next => exact hpack

/-- The runs of a full that loses nothing hold it together. -/
theorem runsOf_parts (h : refusedOf full shape encode = []) :
    ((runsOf full shape encode).map split).foldl Parts.append ⟨[], [], []⟩ = full.parts := by
  rw [foldl_append_split, runsOf_flatten h, split_items]
  simp [Parts.append]

theorem runsOf_pos : 0 < (runsOf full shape encode).length := by
  unfold runsOf
  dsimp only
  split
  next => exact Nat.one_pos
  next hemp =>
    rw [List.length_pos_iff]
    simpa using hemp

theorem runsOf_length : (runsOf full shape encode).length ≤ max 1 full.items.length := by
  have hpack := packInOrder_length (measure shape encode) full.items
  unfold runsOf
  dsimp only
  split
  next => exact Nat.le_max_left _ _
  next =>
    rw [List.length_map]
    omega

theorem runsOf_empty (h : full.items = []) (shape : Parts → UInt32 → UInt32 → T) (encode : T → Bytes) :
    runsOf full shape encode = [[]] := by
  simp [runsOf, h, packInOrder]

theorem mem_runsOf (h : refusedOf full shape encode = []) {run : List Item}
    (hrun : run ∈ runsOf full shape encode) :
    (full.items = [] ∧ run = []) ∨ ∃ bytes, measure shape encode run = .ok bytes := by
  have hpack := packInOrder_flatten h
  unfold runsOf at hrun
  dsimp only at hrun
  split at hrun
  next hemp =>
    rw [List.isEmpty_iff.mp hemp] at hpack
    exact Or.inl ⟨hpack.symm, List.mem_singleton.mp hrun⟩
  next =>
    obtain ⟨p, hp, rfl⟩ := List.mem_map.mp hrun
    exact Or.inr ⟨p.2, (packInOrder_fits hp).1⟩

theorem chunksMeasured_get (k : Nat) : (chunksMeasured full shape encode)[k]? =
    (runsOf full shape encode)[k]?.map fun run =>
      shape (split run) (UInt32.ofNat k) (UInt32.ofNat (runsOf full shape encode).length) := by
  simp only [chunksMeasured, List.getElem?_mapIdx]

theorem le_max_u32 (n : UInt32) : n ≤ 0xffffffff := by
  rw [UInt32.le_iff_toNat_le]
  have := n.toNat_lt
  simp only [UInt32.reduceToNat]
  omega

/-- Every chunk fits one frame with its real index and count. -/
theorem chunksMeasured_fit (h : refusedOf full shape encode = [])
    (hgrow : ∀ parts i n i' n', i ≤ i' → n ≤ n' →
      (encode (shape parts i n)).length ≤ (encode (shape parts i' n')).length)
    (hempty : full.items = [] → (encode (shape ⟨[], [], []⟩ 0 1)).length ≤ maxFrame)
    {c : T} (hc : c ∈ chunksMeasured full shape encode) : (encode c).length ≤ maxFrame := by
  obtain ⟨k, hk⟩ := List.mem_iff_getElem?.mp hc
  rw [chunksMeasured_get] at hk
  obtain ⟨run, hrun, rfl⟩ := Option.map_eq_some_iff.mp hk
  rcases mem_runsOf h (List.mem_iff_getElem?.mpr ⟨k, hrun⟩) with ⟨hitems, rfl⟩ | ⟨bytes, hfits⟩
  · have hone := runsOf_empty hitems shape encode
    have hk0 : k = 0 := by
      rw [hone] at hrun
      by_contra hk0
      simp [hk0] at hrun
    rw [hone, hk0]
    exact hempty hitems
  · refine Nat.le_trans (hgrow _ _ _ 0xffffffff 0xffffffff (le_max_u32 _) (le_max_u32 _)) ?_
    unfold measure at hfits
    dsimp only at hfits
    split at hfits
    next => simp at hfits
    next hle => exact Nat.le_of_not_lt hle

end Measured

/-- What every chunk of one publication carries. -/
structure Header where
  owner : Option Birth
  mesh : String
  publisher : PublisherId
  forwardedBy : Option String
  version : Nat
  snapshotId : Nat
deriving DecidableEq

def Header.shape (header : Header) (parts : Parts) (index count : UInt32) : Chunk :=
  ⟨header.mesh, header.publisher, header.forwardedBy, header.version, header.snapshotId, index, count,
    parts⟩

def Header.key (header : Header) : SourceKey := ⟨header.owner, header.mesh, header.publisher, false⟩

/-- A full cut into chunks by its channel's encoding, none of its items refused. -/
structure Publication extends Header where
  full : Full
  encode : Chunk → Bytes
  complete : refusedOf full toHeader.shape encode = []
  few : (runsOf full toHeader.shape encode).length < UInt32.size

namespace Publication

def runs (P : Publication) : List (List Item) := runsOf P.full P.toHeader.shape P.encode

def count (P : Publication) : UInt32 := UInt32.ofNat P.runs.length

def chunks (P : Publication) : List Chunk := chunksMeasured P.full P.toHeader.shape P.encode

theorem chunks_get (P : Publication) (k : Nat) : P.chunks[k]? =
    P.runs[k]?.map fun run => P.toHeader.shape (split run) (UInt32.ofNat k) P.count :=
  chunksMeasured_get k

theorem length_chunks (P : Publication) : P.chunks.length = P.runs.length := by
  simp [chunks, chunksMeasured, runs]

theorem count_toNat (P : Publication) : P.count.toNat = P.chunks.length := by
  rw [length_chunks, count, UInt32.toNat_ofNat_of_lt']
  exact P.few

theorem mem_chunks {P : Publication} {c : Chunk} (h : c ∈ P.chunks) :
    ∃ k, k < P.chunks.length ∧ P.chunks[k]? = some c ∧ c = P.toHeader.shape c.parts c.chunkIndex P.count ∧
      c.chunkIndex.toNat = k := by
  obtain ⟨k, hk⟩ := List.mem_iff_getElem?.mp h
  have hlt : k < P.chunks.length := (List.getElem?_eq_some_iff.mp hk).1
  refine ⟨k, hlt, hk, ?_⟩
  rw [chunks_get] at hk
  obtain ⟨run, _, rfl⟩ := Option.map_eq_some_iff.mp hk
  refine ⟨rfl, ?_⟩
  have hfew := P.few
  rw [length_chunks, runs] at hlt
  exact UInt32.toNat_ofNat_of_lt' (Nat.lt_trans hlt hfew)

theorem mem_header {P : Publication} {c : Chunk} (h : c ∈ P.chunks) :
    c.mesh = P.mesh ∧ c.publisher = P.publisher ∧ c.topologyVersion = P.version ∧
      c.snapshotId = P.snapshotId ∧ c.chunkCount = P.count := by
  obtain ⟨_, _, _, hshape, _⟩ := mem_chunks h
  rw [hshape]
  exact ⟨rfl, rfl, rfl, rfl, rfl⟩

theorem chunkIndex_lt {P : Publication} {c : Chunk} (h : c ∈ P.chunks) : c.chunkIndex < P.count := by
  obtain ⟨k, hlt, _, _, hi⟩ := mem_chunks h
  rw [UInt32.lt_iff_toNat_lt, count_toNat]
  omega

/-- A publication's chunks are told apart by their index. -/
theorem chunkIndex_inj {P : Publication} {c d : Chunk} (hc : c ∈ P.chunks) (hd : d ∈ P.chunks)
    (h : c.chunkIndex = d.chunkIndex) : c = d := by
  obtain ⟨k, _, hk, _, hi⟩ := mem_chunks hc
  obtain ⟨j, _, hj, _, hi'⟩ := mem_chunks hd
  have hkj : k = j := by rw [← hi, ← hi', h]
  rw [hkj, hj] at hk
  exact Option.some.inj hk.symm

/-- The chunks of a publication by their index. -/
def entries (P : Publication) : List (UInt32 × Parts) := P.chunks.map fun c => (c.chunkIndex, c.parts)

theorem mem_entries (P : Publication) (i : UInt32) (parts : Parts) :
    (i, parts) ∈ P.entries ↔ ∃ c ∈ P.chunks, c.chunkIndex = i ∧ c.parts = parts := by
  simp [entries]

theorem entries_sorted (P : Publication) :
    P.entries.Pairwise fun a b => compare a.1 b.1 = .lt := by
  rw [entries, List.pairwise_map, List.pairwise_iff_getElem]
  intro j k hj hk hjk
  have hindex : ∀ i (hi : i < P.chunks.length), P.chunks[i].chunkIndex = UInt32.ofNat i := by
    intro i hi
    have hget : P.chunks[i]? = some P.chunks[i] := List.getElem?_eq_getElem hi
    rw [chunks_get] at hget
    obtain ⟨run, _, he⟩ := Option.map_eq_some_iff.mp hget
    rw [← he]
    rfl
  have hfew : P.chunks.length < UInt32.size := by
    rw [length_chunks]
    exact P.few
  rw [hindex j hj, hindex k hk, Std.compare_eq_lt, UInt32.lt_iff_toNat_lt,
    UInt32.toNat_ofNat_of_lt' (Nat.lt_trans hj hfew), UInt32.toNat_ofNat_of_lt' (Nat.lt_trans hk hfew)]
  exact hjk

theorem chunkIndex_nodup (P : Publication) : (P.chunks.map Chunk.chunkIndex).Nodup := by
  have hsorted := P.entries_sorted
  rw [entries, List.pairwise_map] at hsorted
  rw [List.Nodup, List.pairwise_map]
  refine hsorted.imp fun {a b} hab he => ?_
  rw [he] at hab
  simp [Std.ReflCmp.compare_self] at hab

theorem chunks_pos (P : Publication) : 0 < P.chunks.length := by
  rw [length_chunks]
  exact runsOf_pos

theorem entries_parts (P : Publication) :
    (P.entries.map Prod.snd).foldl Parts.append ⟨[], [], []⟩ = P.full.parts := by
  have hsplit : P.entries.map Prod.snd = P.runs.map split := by
    rw [entries, List.map_map]
    refine List.ext_getElem? fun k => ?_
    rw [List.getElem?_map, List.getElem?_map, chunks_get, Option.map_map]
    rfl
  rw [hsplit]
  exact runsOf_parts P.complete

end Publication

end DistributedMesh
