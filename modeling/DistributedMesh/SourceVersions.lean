import DistributedMesh.GuardedRuns
import DistributedMesh.TopologyAgreement
import DistributedMesh.TopologyInstall

namespace DistributedMesh

open GuardedRuns

/-- A source primary's version counter: the version of the last topology observed, and the counter the snapshot ids of
this publisher are taken from. Both count from 0, at most one a call, so up to `2^64` calls they are the source's `u64`s. -/
structure SourceVersion where
  version : Nat
  last : Option Full
  snapshots : Nat

namespace SourceVersion

def new : SourceVersion := ⟨0, none, 0⟩

def wouldBump (v : SourceVersion) (full : Full) : Bool := v.last.all fun l => !l.sameTopology full

def observe (v : SourceVersion) (full : Full) : SourceVersion × Nat :=
  if v.wouldBump full then ({ v with version := v.version + 1, last := some full }, v.version + 1) else (v, v.version)

def nextSnapshotId (v : SourceVersion) : SourceVersion × Nat :=
  ({ v with snapshots := v.snapshots + 1 }, v.snapshots + 1)

end SourceVersion

/-- One publication of a mesh's topology on the backbone. -/
structure Emission where
  version : Nat
  snapshotId : Nat
  full : Full

/-- An admin's publication of its own mesh: its version counter, what it published last, whether it holds the role, and
all it published. -/
structure Backbone where
  source : SourceVersion
  own : Option (Nat × Full)
  publishing : Bool
  emitted : List Emission

namespace Backbone

def new : Backbone := ⟨.new, none, false, []⟩

/-- What moves it: the role, a publication or a status event with the projection each reads, and a snapshot id its
forwarder takes from the same counter. -/
inductive Call where
  | setMeshPrimary (primary : Bool)
  | publish (full : Full)
  | publishStatusEvent (full : Full)
  | forward

def publish (b : Backbone) (full : Full) : Backbone :=
  if !b.publishing then b
  else
    let observed := b.source.observe full
    let next := observed.1.nextSnapshotId
    { b with
      source := next.1
      own := some (observed.2, full)
      emitted := b.emitted ++ [⟨observed.2, next.2, full⟩] }

/-- The version a status event of the mesh is stamped with: the one its projection takes, at the mesh's primary. -/
def publishStatusEvent (b : Backbone) (full : Full) : Backbone :=
  if b.publishing then { b with source := (b.source.observe full).1 } else b

def call (b : Backbone) : Call → Backbone
  | .setMeshPrimary primary => { b with publishing := primary }
  | .publish full => b.publish full
  | .publishStatusEvent full => b.publishStatusEvent full
  | .forward => { b with source := b.source.nextSnapshotId.1 }

def run (b : Backbone) (calls : List Call) : Backbone := calls.foldl call b

/-- The projection is no longer the one last published: a publication is due at once. -/
def moved (b : Backbone) (full : Full) : Bool :=
  b.source.wouldBump full || (b.own.map Prod.fst).getD 0 != b.source.version

/-- What holds of a publisher after any calls. -/
structure Counted (b : Backbone) : Prop where
  observed : ∀ l, b.source.last = some l → 0 < b.source.version
  versions : ∀ e ∈ b.emitted, 0 < e.version ∧ e.version ≤ b.source.version
  current : ∀ e ∈ b.emitted, e.version = b.source.version → ∃ l, b.source.last = some l ∧ l.sameTopology e.full = true
  ids : ∀ e ∈ b.emitted, e.snapshotId ≤ b.source.snapshots
  order : b.emitted.Pairwise fun a e => a.snapshotId < e.snapshotId ∧ a.version ≤ e.version ∧
    (a.version = e.version → a.full.sameTopology e.full = true)
  own : b.own = b.emitted.getLast?.map fun e => (e.version, e.full)

variable {b : Backbone} {full : Full}

/-- What an observation does: the version stays when the topology is the last one, else it is the next. -/
theorem observe_cases (v : SourceVersion) (full : Full) :
    (∃ l, v.last = some l ∧ l.sameTopology full = true ∧ v.observe full = (v, v.version)) ∨
      v.observe full = ({ v with version := v.version + 1, last := some full }, v.version + 1) := by
  unfold SourceVersion.observe SourceVersion.wouldBump
  cases hlast : v.last with
  | none => exact .inr rfl
  | some l =>
    cases hsame : l.sameTopology full with
    | true =>
      refine .inl ⟨l, rfl, hsame, ?_⟩
      simp [hsame]
    | false =>
      refine .inr ?_
      simp [hsame]

theorem observe_last (v : SourceVersion) (full : Full) :
    (∃ l, (v.observe full).1.last = some l ∧ l.sameTopology full = true) ∧
      (v.observe full).2 = (v.observe full).1.version ∧ (v.observe full).1.snapshots = v.snapshots := by
  obtain ⟨l, hlast, hsame, hobserve⟩ | hobserve := observe_cases v full <;> rw [hobserve]
  · exact ⟨⟨l, hlast, hsame⟩, rfl, rfl⟩
  · exact ⟨⟨full, rfl, full.sameTopology_refl⟩, rfl, rfl⟩

theorem counted_new : Counted new := by
  refine ⟨?_, ?_, ?_, ?_, List.Pairwise.nil, rfl⟩ <;> nofun

/-- An observation keeps the counts: where it moves the version on, nothing published has that version yet. -/
theorem Counted.observes (h : Counted b) (full : Full) : Counted { b with source := (b.source.observe full).1 } := by
  obtain ⟨l, hlast, hsame, hobserve⟩ | hobserve := observe_cases b.source full <;> rw [hobserve]
  · exact h
  · refine ⟨fun _ _ => Nat.succ_pos _, ?_, ?_, h.ids, h.order, h.own⟩
    · intro e he
      have hversion := h.versions e he
      exact ⟨hversion.1, Nat.le_succ_of_le hversion.2⟩
    · intro e he heq
      have hversion := h.versions e he
      replace heq : e.version = b.source.version + 1 := heq
      omega

theorem Counted.forwards (h : Counted b) : Counted { b with source := b.source.nextSnapshotId.1 } :=
  ⟨h.observed, h.versions, h.current, fun e he => Nat.le_succ_of_le (h.ids e he), h.order, h.own⟩

/-- A publication has the version its projection is observed at, and an id no publication had. -/
theorem Counted.publish (h : Counted b) (full : Full) : Counted (b.publish full) := by
  unfold Backbone.publish
  split
  · exact h
  have hobserved := h.observes full
  obtain ⟨⟨l, hlast, hsame⟩, hversion, hsnapshots⟩ := observe_last b.source full
  have hpos : 0 < (b.source.observe full).2 := by
    rw [hversion]
    exact hobserved.observed l hlast
  refine ⟨hobserved.observed, ?_, ?_, ?_, ?_, ?_⟩
  · intro e he
    rcases List.mem_append.mp he with he | he
    · exact hobserved.versions e he
    · rw [List.mem_singleton.mp he]
      exact ⟨hpos, Nat.le_of_eq hversion⟩
  · intro e he heq
    rcases List.mem_append.mp he with he | he
    · exact hobserved.current e he heq
    · rw [List.mem_singleton.mp he]
      exact ⟨l, hlast, hsame⟩
  · intro e he
    rcases List.mem_append.mp he with he | he
    · exact Nat.le_succ_of_le (hobserved.ids e he)
    · rw [List.mem_singleton.mp he]
      exact Nat.le_refl _
  · refine List.pairwise_append.mpr ⟨h.order, List.pairwise_singleton .., ?_⟩
    intro a ha e he
    rw [List.mem_singleton.mp he]
    refine ⟨Nat.lt_succ_of_le (hobserved.ids a ha), ?_, ?_⟩
    · show a.version ≤ (b.source.observe full).2
      rw [hversion]
      exact (hobserved.versions a ha).2
    · intro heq
      replace heq : a.version = (b.source.observe full).2 := heq
      rw [hversion] at heq
      obtain ⟨l', hlast', hsame'⟩ := hobserved.current a ha heq
      replace hlast' : (b.source.observe full).1.last = some l' := hlast'
      rw [hlast] at hlast'
      cases hlast'
      exact Full.sameTopology_trans (Full.sameTopology_symm hsame') hsame
  · show some _ = (b.emitted ++ [_]).getLast?.map _
    rw [List.getLast?_concat]
    rfl

theorem Counted.call (h : Counted b) (c : Call) : Counted (b.call c) := by
  cases c with
  | setMeshPrimary primary => exact ⟨h.observed, h.versions, h.current, h.ids, h.order, h.own⟩
  | publish full => exact h.publish full
  | publishStatusEvent full =>
    rw [Backbone.call, publishStatusEvent]
    split
    · exact h.observes full
    · exact h
  | forward => exact h.forwards

theorem counted_run (calls : List Call) : Counted (new.run calls) :=
  invariant_run (fun _ c h => h.call c) counted_new calls

/-- A call moves each counter on by one at most. -/
theorem call_counts (b : Backbone) (c : Call) :
    (b.call c).source.version ≤ b.source.version + 1 ∧ (b.call c).source.snapshots ≤ b.source.snapshots + 1 := by
  have hobserve : ∀ full, (b.source.observe full).1.version ≤ b.source.version + 1 ∧
      (b.source.observe full).1.snapshots = b.source.snapshots := by
    intro full
    obtain ⟨l, hlast, hsame, hobserve⟩ | hobserve := observe_cases b.source full <;> rw [hobserve]
    · exact ⟨Nat.le_succ _, rfl⟩
    · exact ⟨Nat.le_refl _, rfl⟩
  cases c with
  | setMeshPrimary primary => exact ⟨Nat.le_succ _, Nat.le_succ _⟩
  | publish full =>
    rw [Backbone.call, Backbone.publish]
    split
    · exact ⟨Nat.le_succ _, Nat.le_succ _⟩
    · exact ⟨(hobserve full).1, Nat.succ_le_succ (Nat.le_of_eq (hobserve full).2)⟩
  | publishStatusEvent full =>
    rw [Backbone.call, publishStatusEvent]
    split
    · exact ⟨(hobserve full).1, Nat.le_succ_of_le (Nat.le_of_eq (hobserve full).2)⟩
    · exact ⟨Nat.le_succ _, Nat.le_succ _⟩
  | forward => exact ⟨Nat.le_succ _, Nat.le_refl _⟩

theorem run_counts (calls : List Call) :
    (new.run calls).source.version ≤ calls.length ∧ (new.run calls).source.snapshots ≤ calls.length := by
  induction calls using List.reverseRecOn with
  | nil => exact ⟨Nat.le_refl _, Nat.le_refl _⟩
  | append_singleton calls c ih =>
    have hstep := call_counts (new.run calls) c
    rw [run, List.foldl_append, List.length_append]
    exact ⟨Nat.le_trans hstep.1 (Nat.succ_le_succ ih.1), Nat.le_trans hstep.2 (Nat.succ_le_succ ih.2)⟩

theorem Counted.sameTopology (h : Counted b) {a e : Emission} (ha : a ∈ b.emitted) (he : e ∈ b.emitted)
    (hversion : a.version = e.version) : a.full.sameTopology e.full = true := by
  have hforward := h.order.imp fun hae => hae.2.2
  have hback : b.emitted.Pairwise (flip fun a e : Emission => a.version = e.version → a.full.sameTopology e.full = true) :=
    hforward.imp fun hae heq => Full.sameTopology_symm (hae heq.symm)
  exact hforward.forall_of_forall_of_flip (fun x _ _ => x.full.sameTopology_refl) hback ha he hversion

theorem Counted.unique (h : Counted b) {a e : Emission} (ha : a ∈ b.emitted) (he : e ∈ b.emitted)
    (hid : a.snapshotId = e.snapshotId) : a = e := by
  have hforward : b.emitted.Pairwise fun a e => a.snapshotId = e.snapshotId → a = e :=
    h.order.imp fun hae heq => absurd heq (Nat.ne_of_lt hae.1)
  have hback : b.emitted.Pairwise (flip fun a e : Emission => a.snapshotId = e.snapshotId → a = e) :=
    h.order.imp fun hae heq => absurd heq.symm (Nat.ne_of_lt hae.1)
  exact hforward.forall_of_forall_of_flip (fun x _ _ => rfl) hback ha he hid

end Backbone

/-- What a publication is offered to a forwarder as. -/
def Emission.offer (mesh : String) (publisher : PublisherId) (e : Emission) : Offer := ⟨mesh, publisher, e.version, e.full⟩

/-- What every chunk of a publication on the backbone carries. -/
def Emission.header (owner : Option Birth) (mesh : String) (publisher : PublisherId) (e : Emission) : Header :=
  ⟨owner, mesh, publisher, none, e.version, e.snapshotId⟩

/-- The publication is put on its channel in these chunks, measured as it is stamped. -/
structure Emission.Sent (owner : Option Birth) (mesh : String) (publisher : PublisherId)
    (encode : Emission → Chunk → Bytes) (e : Emission) (P : Publication) : Prop where
  header : P.toHeader = e.header owner mesh publisher
  full : P.full = e.full
  encode : P.encode = encode e

namespace Backbone

open SnapshotReceiver (Installs alice memberOf twoMembers memberBytes headerOf mesh1Publication mesh1First mesh1Second
  installs_of_isInstalled)

variable {b : Backbone}

/-- Over every run of a publisher its versions and snapshot ids only go up, and the publications of one version are of
one topology: they are numbered as its forwarders and receivers count on. No number is past the count of the calls. -/
theorem publications_numbered (calls : List Call) (mesh : String) (publisher : PublisherId) :
    ((new.run calls).emitted.Pairwise fun a e => a.snapshotId < e.snapshotId ∧ a.version ≤ e.version) ∧
      Numbered ((new.run calls).emitted.map (Emission.offer mesh publisher)) ∧
      ∀ e ∈ (new.run calls).emitted, e.version ≤ calls.length ∧ e.snapshotId ≤ calls.length := by
  have h := counted_run calls
  refine ⟨h.order.imp fun hae => ⟨hae.1, hae.2.1⟩, ?_, ?_⟩
  · intro a ha e he _ _ hversion
    obtain ⟨x, hx, rfl⟩ := List.mem_map.mp ha
    obtain ⟨y, hy, rfl⟩ := List.mem_map.mp he
    exact h.sameTopology hx hy hversion
  · intro e he
    have hcounts := run_counts calls
    exact ⟨Nat.le_trans (h.versions e he).2 hcounts.1, Nat.le_trans (h.ids e he) hcounts.2⟩

/-- While no publication is due, what the publisher published last is its projection, at its version: no change of the
topology, a status event's included, is left unpublished without the next publication being due. -/
theorem quiet_projection_published (calls : List Call) (full : Full) (h : (new.run calls).moved full = false) :
    ∃ e, (new.run calls).emitted.getLast? = some e ∧ e.version = (new.run calls).source.version ∧
      e.full.sameTopology full = true := by
  have hcounted := counted_run calls
  obtain ⟨hbump, hversion⟩ := Bool.or_eq_false_iff.mp h
  have hsame : ∃ l, (new.run calls).source.last = some l ∧ l.sameTopology full = true := by
    rw [SourceVersion.wouldBump] at hbump
    cases hlast : (new.run calls).source.last with
    | none =>
      rw [hlast] at hbump
      cases hbump
    | some l =>
      rw [hlast] at hbump
      exact ⟨l, rfl, by simpa using hbump⟩
  obtain ⟨l, hlast, hl⟩ := hsame
  have hpos := hcounted.observed l hlast
  rw [bne_eq_false_iff_eq, hcounted.own] at hversion
  cases hemitted : (new.run calls).emitted.getLast? with
  | none =>
    rw [hemitted] at hversion
    replace hversion : 0 = (new.run calls).source.version := hversion
    omega
  | some e =>
    rw [hemitted] at hversion
    obtain ⟨l', hlast', hsame⟩ := hcounted.current e (List.mem_of_getLast? hemitted) hversion
    rw [hlast] at hlast'
    cases hlast'
    exact ⟨e, rfl, hversion, Full.sameTopology_trans (Full.sameTopology_symm hsame) hl⟩

/-- Two members of which one leaves. -/
def oneLeaving : Full := Full.new [memberOf "mesh1" "n1", { memberOf "mesh1" "n2" with status := .leaving }] [] []

/-- A publication of two members, and a status event that one of them leaves. -/
def leavingCalls : List Call := [.setMeshPrimary true, .publish (twoMembers "mesh1"), .publishStatusEvent oneLeaving]

theorem quiet_projection_published_leaving :
    (new.run leavingCalls).moved oneLeaving = true ∧
      ∃ e, (new.run (leavingCalls ++ [.publish oneLeaving])).emitted.getLast? = some e ∧ e.version = 2 ∧
        e.full.sameTopology oneLeaving = true := by
  have hquiet : (new.run (leavingCalls ++ [.publish oneLeaving])).moved oneLeaving = false := by decide +kernel
  have hversion : (new.run (leavingCalls ++ [.publish oneLeaving])).source.version = 2 := by decide +kernel
  obtain ⟨e, hlast, he, hsame⟩ := quiet_projection_published (leavingCalls ++ [.publish oneLeaving]) oneLeaving hquiet
  exact ⟨by decide +kernel, e, hlast, he.trans hversion, hsame⟩

variable {owner : Option Birth} {mesh : String} {publisher : PublisherId} {encode : Emission → Chunk → Bytes}

/-- The publications of one publisher are told apart, whichever of their chunks are delivered. -/
theorem Counted.distinct (h : Counted b) {ds : List Delivery}
    (hds : ∀ d ∈ ds, ∃ e ∈ b.emitted, e.Sent owner mesh publisher encode d.publication) : Distinct ds := by
  intro x hx y hy hidentity
  obtain ⟨a, ha, hsentx⟩ := hds x hx
  obtain ⟨e, he, hsenty⟩ := hds y hy
  have hid : x.publication.snapshotId = y.publication.snapshotId := by
    simp only [Publication.identity, Prod.mk.injEq] at hidentity
    exact hidentity.2.2.2.2
  rw [hsentx.header, hsenty.header] at hid
  have heq : a = e := h.unique ha he hid
  rw [heq] at hsentx
  have hheader := hsentx.header.trans hsenty.header.symm
  have hfull := hsentx.full.trans hsenty.full.symm
  have hencode := hsentx.encode.trans hsenty.encode.symm
  cases hp : x.publication with
  | mk headerx fullx encodex completex fewx =>
    cases hq : y.publication with
    | mk headery fully encodey completey fewy =>
      rw [hp, hq] at hheader hfull hencode
      cases hheader
      cases hfull
      cases hencode
      rfl

/-- Whatever chunks of a publisher's publications reach a peer, in whatever order, lost or repeated, every snapshot the
peer installs is one the publisher published, whole and at its version, and two it installs at one version are of one
topology. -/
theorem peer_installs_publications (calls : List Call) (owner : Option Birth) (mesh : String) (publisher : PublisherId)
    (encode : Emission → Chunk → Bytes) (ds : List Delivery)
    (hds : ∀ d ∈ ds, ∃ e ∈ (new.run calls).emitted, e.Sent owner mesh publisher encode d.publication) :
    (∀ before d after i, ds = before ++ d :: after → Installs before d i →
      ∃ e ∈ (new.run calls).emitted, i.mesh = mesh ∧ i.publisher = publisher ∧ i.topologyVersion = e.version ∧
        i.snapshotId = e.snapshotId ∧ i.full = e.full ∧
        ∀ c ∈ d.publication.chunks, Delivered (before ++ [d]) d.publication c) ∧
    ∀ before d after i before' d' after' i', ds = before ++ d :: after → Installs before d i →
      ds = before' ++ d' :: after' → Installs before' d' i' → i.topologyVersion = i'.topologyVersion →
      i.full.sameTopology i'.full = true := by
  have hcounted := counted_run calls
  have hinstalls : ∀ before d after i, ds = before ++ d :: after → Installs before d i →
      ∃ e ∈ (new.run calls).emitted, i.mesh = mesh ∧ i.publisher = publisher ∧ i.topologyVersion = e.version ∧
        i.snapshotId = e.snapshotId ∧ i.full = e.full ∧
        ∀ c ∈ d.publication.chunks, Delivered (before ++ [d]) d.publication c := by
    intro before d after i hsplit hi
    obtain ⟨hprior, hnext⟩ := (hcounted.distinct hds).upTo hsplit
    obtain ⟨hcarries, hwhole⟩ := ((SnapshotReceiver.AssemblyInv.run hprior).deliver hnext).2 i hi
    obtain ⟨e, he, hsent⟩ := hds d (by rw [hsplit]; simp)
    refine ⟨e, he, ?_, ?_, ?_, ?_, hcarries.full.trans hsent.full, hwhole⟩
    · rw [hcarries.mesh, hsent.header]
      rfl
    · rw [hcarries.publisher, hsent.header]
      rfl
    · rw [hcarries.version, hsent.header]
      rfl
    · rw [hcarries.snapshotId, hsent.header]
      rfl
  refine ⟨hinstalls, ?_⟩
  intro before d after i before' d' after' i' hsplit hi hsplit' hi' hversion
  obtain ⟨e, he, -, -, hv, -, hfull, -⟩ := hinstalls before d after i hsplit hi
  obtain ⟨e', he', -, -, hv', -, hfull', -⟩ := hinstalls before' d' after' i' hsplit' hi'
  rw [hfull, hfull']
  exact hcounted.sameTopology he he' (by rw [← hv, ← hv', hversion])

/-- The members with the one that leaves, published in two chunks. -/
def leavingPublication : Publication where
  toHeader := headerOf "mesh1" 2 2
  full := oneLeaving
  encode := memberBytes
  complete := by decide +kernel
  few := by decide +kernel

def leavingFirst : Delivery :=
  ⟨leavingPublication, (headerOf "mesh1" 2 2).shape ⟨[memberOf "mesh1" "n1"], [], []⟩ 0 2, by decide +kernel, none⟩

def leavingSecond : Delivery :=
  ⟨leavingPublication, (headerOf "mesh1" 2 2).shape ⟨[{ memberOf "mesh1" "n2" with status := .leaving }], [], []⟩ 1 2,
    by decide +kernel, none⟩

/-- Both publications reach a peer chunk by chunk, the later one's out of order: each is installed. -/
theorem peer_installs_publications_leaving :
    let emitted := (new.run (leavingCalls ++ [.publish oneLeaving])).emitted
    (∃ i, Installs [mesh1First] mesh1Second i ∧ ∃ e ∈ emitted, i.topologyVersion = e.version ∧ i.full = e.full) ∧
      ∃ i, Installs [mesh1First, mesh1Second, leavingSecond] leavingFirst i ∧
        ∃ e ∈ emitted, i.topologyVersion = e.version ∧ i.full = e.full := by
  intro emitted
  have hemitted : emitted = [⟨1, 1, twoMembers "mesh1"⟩, ⟨2, 2, oneLeaving⟩] := rfl
  have hds : ∀ d ∈ [mesh1First, mesh1Second, leavingSecond, leavingFirst], ∃ e ∈ emitted,
      e.Sent none "mesh1" alice (fun _ => memberBytes) d.publication := by
    rw [hemitted]
    intro d hd
    have hpublication : d.publication = mesh1Publication ∨ d.publication = leavingPublication := by
      simp only [List.mem_cons, List.not_mem_nil, or_false] at hd
      rcases hd with rfl | rfl | rfl | rfl
      · exact .inl rfl
      · exact .inl rfl
      · exact .inr rfl
      · exact .inr rfl
    rcases hpublication with hd | hd <;> rw [hd]
    · exact ⟨⟨1, 1, twoMembers "mesh1"⟩, by simp, rfl, rfl, rfl⟩
    · exact ⟨⟨2, 2, oneLeaving⟩, by simp, rfl, rfl, rfl⟩
  have hinstalls := (peer_installs_publications (leavingCalls ++ [.publish oneLeaving]) none "mesh1" alice
    (fun _ => memberBytes) _ hds).1
  obtain ⟨i, hi⟩ : ∃ i, Installs [mesh1First] mesh1Second i := installs_of_isInstalled (by decide +kernel)
  obtain ⟨j, hj⟩ : ∃ j, Installs [mesh1First, mesh1Second, leavingSecond] leavingFirst j :=
    installs_of_isInstalled (by decide +kernel)
  obtain ⟨e, he, -, -, hversion, -, hfull, -⟩ := hinstalls [mesh1First] mesh1Second [leavingSecond, leavingFirst] i rfl hi
  obtain ⟨x, hx, -, -, hxversion, -, hxfull, -⟩ :=
    hinstalls [mesh1First, mesh1Second, leavingSecond] leavingFirst [] j rfl hj
  exact ⟨⟨i, hi, e, he, hversion, hfull⟩, j, hj, x, hx, hxversion, hxfull⟩

end Backbone

end DistributedMesh
