import DistributedMesh.TopologyFloor

namespace DistributedMesh

open Std (ExtTreeMap)
open KeyedMaps Shards

def Answer.isDuplicate : Answer → Bool
  | .taken (.refused .duplicate) => true
  | _ => false

namespace SnapshotReceiver

/-- The two receivers have the same of `mesh`. -/
structure Agree (mesh : String) (rx ry : SnapshotReceiver) : Prop where
  pending : ∀ key : SourceKey, key.mesh = mesh → rx.pending[key]? = ry.pending[key]?
  held : rx.held[mesh]? = ry.held[mesh]?
  unbased : rx.unbased[mesh]? = ry.unbased[mesh]?
  dropped : rx.dropped[mesh]? = ry.dropped[mesh]?

theorem Agree.equivalence (mesh : String) : Equivalence (Agree mesh) where
  refl _ := ⟨fun _ _ => rfl, rfl, rfl, rfl⟩
  symm h := ⟨fun k hk => (h.pending k hk).symm, h.held.symm, h.unbased.symm, h.dropped.symm⟩
  trans h h' := ⟨fun k hk => (h.pending k hk).trans (h'.pending k hk), h.held.trans h'.held,
    h.unbased.trans h'.unbased, h.dropped.trans h'.dropped⟩

section Own

variable {rx ry : SnapshotReceiver} {mesh : String}

theorem Agree.heldBy (h : Agree mesh rx ry) (publisher : PublisherId) :
    rx.heldBy mesh publisher = ry.heldBy mesh publisher := by
  rw [SnapshotReceiver.heldBy, SnapshotReceiver.heldBy, h.held]

theorem Agree.putPending (h : Agree mesh rx ry) (key : SourceKey) (p : PendingSnapshot) :
    Agree mesh { rx with pending := rx.pending.insert key p }
      { ry with pending := ry.pending.insert key p } :=
  ⟨fun k hk => insert_congr (h.pending k hk) key p, h.held, h.unbased, h.dropped⟩

theorem Agree.dropPending (h : Agree mesh rx ry) (key : SourceKey) :
    Agree mesh { rx with pending := rx.pending.erase key }
      { ry with pending := ry.pending.erase key } :=
  ⟨fun k hk => erase_congr (h.pending k hk) key, h.held, h.unbased, h.dropped⟩

theorem Agree.putHeld (h : Agree mesh rx ry) (held : Held) :
    Agree mesh { rx with held := rx.held.insert mesh held }
      { ry with held := ry.held.insert mesh held } :=
  ⟨h.pending, insert_congr h.held mesh held, h.unbased, h.dropped⟩

theorem Agree.install (h : Agree mesh rx ry) (publisher : PublisherId) (p : PendingSnapshot) (full : Full)
    (fromRead : Bool) :
    (rx.install mesh publisher p full fromRead).2 = (ry.install mesh publisher p full fromRead).2 ∧
      Agree mesh (rx.install mesh publisher p full fromRead).1
        (ry.install mesh publisher p full fromRead).1 := by
  have hunbased : mesh ∈ rx.unbased ↔ mesh ∈ ry.unbased := by
    rw [mem_iff_getElem?, mem_iff_getElem?, h.unbased]
  refine ⟨?_, ⟨fun key hkey => ?_, ?_, ?_, ?_⟩⟩
  · simp only [SnapshotReceiver.install, h.held, hunbased]
  · simp only [SnapshotReceiver.install, ExtTreeMap.getElem?_filter', h.pending key hkey]
  · simp only [SnapshotReceiver.install, getElem?_insert_eq, if_true, h.heldBy, h.dropped]
  · exact erase_congr h.unbased mesh
  · simp only [SnapshotReceiver.install, h.dropped]
    split
    next => exact erase_congr h.dropped mesh
    next => exact h.dropped

end Own

theorem Agree.chunk {rx ry : SnapshotReceiver} {c : Chunk} (h : Agree c.mesh rx ry) (fromRead : Bool)
    (installed : Option InstalledProjection) (owner : Option Birth) :
    (rx.chunk c fromRead installed owner).2 = (ry.chunk c fromRead installed owner).2 ∧
      Agree c.mesh (rx.chunk c fromRead installed owner).1 (ry.chunk c fromRead installed owner).1 := by
  have hkey := h.pending (sourceKey c fromRead owner) rfl
  have hheld : rx.againstHeld c fromRead owner = ry.againstHeld c fromRead owner := by
    rw [againstHeld, againstHeld, h.heldBy]
  have hpending : rx.againstPending (sourceKey c fromRead owner) c =
      ry.againstPending (sourceKey c fromRead owner) c := by
    rw [againstPending, againstPending, hkey]
  have hassembly : rx.assembly (sourceKey c fromRead owner) c =
      ry.assembly (sourceKey c fromRead owner) c := by
    rw [assembly, assembly, hkey]
  unfold SnapshotReceiver.chunk
  by_cases hi : c.chunkCount = 0 ∨ c.chunkIndex ≥ c.chunkCount
  · simp only [if_pos hi]
    exact ⟨trivial, h⟩
  · simp only [if_neg hi, hheld]
    cases ry.againstHeld c fromRead owner with
    | some refusal => exact ⟨rfl, h⟩
    | none =>
      simp only [hpending, hassembly]
      cases ry.againstPending (sourceKey c fromRead owner) c with
      | some refusal => exact ⟨rfl, h⟩
      | none =>
        dsimp only
        split
        next => exact ⟨rfl, h.putPending _ _⟩
        next =>
          have hdrop := h.dropPending (sourceKey c fromRead owner)
          have hcomplete : ∀ full, { rx with pending := rx.pending.erase (sourceKey c fromRead owner) }.againstComplete
              c full fromRead installed = { ry with pending := ry.pending.erase (sourceKey c fromRead owner) }.againstComplete
              c full fromRead installed := by
            intro full
            rw [againstComplete, againstComplete, hdrop.heldBy]
          simp only [hcomplete]
          split
          next => exact ⟨rfl, hdrop⟩
          next => exact hdrop.install _ _ _ _

theorem Agree.delta {rx ry : SnapshotReceiver} {mesh : String} (h : Agree mesh rx ry)
    (source : PublisherId) (base version : Nat) (delta : Delta) :
    (rx.takeDelta mesh source base version delta).2 = (ry.takeDelta mesh source base version delta).2 ∧
      Agree mesh (rx.takeDelta mesh source base version delta).1
        (ry.takeDelta mesh source base version delta).1 := by
  have hunbased : mesh ∈ rx.unbased ↔ mesh ∈ ry.unbased := by
    rw [mem_iff_getElem?, mem_iff_getElem?, h.unbased]
  have hbase : (rx.takeDeltaAtBase mesh source base version delta).2 =
      (ry.takeDeltaAtBase mesh source base version delta).2 ∧
        Agree mesh (rx.takeDeltaAtBase mesh source base version delta).1
          (ry.takeDeltaAtBase mesh source base version delta).1 := by
    unfold takeDeltaAtBase
    rw [h.held]
    cases ry.held[mesh]? with
    | none =>
      simp only [hunbased, true_and]
      refine ⟨h.pending, h.held, ?_, h.dropped⟩
      simp only [ExtTreeMap.getElem?_insertIfNew, h.unbased, hunbased]
    | some k =>
      have hdesync : ∀ gap, (rx.desync mesh k gap).2 = (ry.desync mesh k gap).2 ∧
          Agree mesh (rx.desync mesh k gap).1 (ry.desync mesh k gap).1 := by
        intro gap
        unfold desync
        cases k.desynced with
        | some g => exact ⟨rfl, h⟩
        | none => exact ⟨rfl, h.putHeld _⟩
      dsimp only
      split_ifs
      · exact hdesync _
      · exact ⟨rfl, h⟩
      · exact ⟨rfl, h⟩
      · exact ⟨rfl, h⟩
      · exact ⟨rfl, h⟩
      · exact hdesync _
      · exact ⟨rfl, h.putHeld _⟩
  have hdrop : ∀ {sx sy : SnapshotReceiver}, Agree mesh sx sy →
      Agree mesh (sx.dropAt mesh version) (sy.dropAt mesh version) := by
    intro sx sy hs
    refine ⟨hs.pending, hs.held, hs.unbased, ?_⟩
    rw [dropAt, dropAt, getElem?_insert_eq, getElem?_insert_eq, if_pos rfl, if_pos rfl, hs.dropped]
  obtain ⟨hanswer, hagree⟩ := hbase
  unfold takeDelta
  generalize rx.takeDeltaAtBase mesh source base version delta = x at hanswer hagree ⊢
  generalize ry.takeDeltaAtBase mesh source base version delta = y at hanswer hagree ⊢
  obtain ⟨sx, mx⟩ := x
  obtain ⟨sy, my⟩ := y
  dsimp only at hanswer hagree
  subst hanswer
  split
  next hx =>
    cases hx
    exact ⟨rfl, hdrop hagree⟩
  next hne =>
    split
    next hy =>
      cases hy
      exact absurd rfl (hne _ _)
    next => exact ⟨rfl, hagree⟩

theorem Agree.adopt {rx ry : SnapshotReceiver} {mesh : String} (h : Agree mesh rx ry)
    (source : PublisherId) (installed : Option InstalledProjection) :
    Agree mesh (rx.adopt mesh source installed) (ry.adopt mesh source installed) := by
  unfold SnapshotReceiver.adopt
  rw [h.held]
  cases installed.filter fun i => i.publisher = source with
  | none => exact h
  | some i =>
    dsimp only
    split
    next => exact h.putHeld _
    next => exact h

theorem Agree.mark {rx ry : SnapshotReceiver} {mesh : String} (h : Agree mesh rx ry) (gap : Gap) :
    (rx.markDesynced mesh gap).2 = (ry.markDesynced mesh gap).2 ∧
      Agree mesh (rx.markDesynced mesh gap).1 (ry.markDesynced mesh gap).1 := by
  unfold markDesynced
  rw [h.held]
  cases ry.held[mesh]? with
  | none => exact ⟨rfl, h⟩
  | some k =>
    dsimp only
    split
    next => exact ⟨rfl, h.putHeld _⟩
    next => exact ⟨rfl, h⟩

theorem Agree.remove {rx ry : SnapshotReceiver} {mesh : String} (h : Agree mesh rx ry)
    (mesh' : String) : Agree mesh (rx.remove mesh') (ry.remove mesh') :=
  ⟨h.pending, erase_congr h.held mesh', erase_congr h.unbased mesh', erase_congr h.dropped mesh'⟩

theorem step_own (rx ry : SnapshotReceiver) (call : Call) (h : Agree call.mesh rx ry) :
    (rx.step call).2 = (ry.step call).2 ∧ Agree call.mesh (rx.step call).1 (ry.step call).1 := by
  cases call with
  | takeChunk c =>
    obtain ⟨ha, hs⟩ := Agree.chunk h false none none
    exact ⟨congrArg Answer.taken ha, hs⟩
  | takeReadChunk c =>
    obtain ⟨ha, hs⟩ := Agree.chunk h true none none
    exact ⟨congrArg Answer.taken ha, hs⟩
  | takeChunkAgainst c fromRead installed =>
    obtain ⟨ha, hs⟩ := Agree.chunk h fromRead installed none
    exact ⟨congrArg Answer.taken ha, hs⟩
  | takeAuthoredChunk c owner installed =>
    obtain ⟨ha, hs⟩ := Agree.chunk h false installed owner
    exact ⟨congrArg Answer.taken ha, hs⟩
  | takeDelta mesh source base version delta =>
    obtain ⟨ha, hs⟩ := h.delta source base version delta
    exact ⟨congrArg Answer.moved ha, hs⟩
  | takeDeltaAgainst mesh source base version delta installed =>
    obtain ⟨ha, hs⟩ := (h.adopt source installed).delta source base version delta
    exact ⟨congrArg Answer.moved ha, hs⟩
  | markDesynced mesh gap =>
    obtain ⟨ha, hs⟩ := h.mark gap
    exact ⟨congrArg Answer.marked ha, hs⟩
  | remove mesh => exact ⟨rfl, h.remove mesh⟩

section Frame

variable {rx : SnapshotReceiver} {mesh mesh' : String}

theorem Agree.insertHeld (hne : mesh' ≠ mesh) (held : Held) :
    Agree mesh rx { rx with held := rx.held.insert mesh' held } :=
  ⟨fun _ _ => rfl, by rw [getElem?_insert_eq, if_neg hne], rfl, rfl⟩

theorem Agree.erasePending {key : SourceKey} (hne : key.mesh ≠ mesh) :
    Agree mesh rx { rx with pending := rx.pending.erase key } := by
  refine ⟨fun k hk => ?_, rfl, rfl, rfl⟩
  rw [getElem?_erase_eq, if_neg]
  rintro rfl
  exact hne hk

theorem install_frame (hne : mesh' ≠ mesh) (publisher : PublisherId) (p : PendingSnapshot)
    (full : Full) (fromRead : Bool) :
    Agree mesh rx (rx.install mesh' publisher p full fromRead).1 := by
  refine ⟨fun key hkey => ?_, ?_, ?_, ?_⟩
  · simp only [install, ExtTreeMap.getElem?_filter']
    cases rx.pending[key]? with
    | none => rfl
    | some q =>
      rw [Option.filter_some, if_pos]
      simp [hkey, Ne.symm hne]
  · simp only [install, getElem?_insert_eq, if_neg hne]
  · simp only [install, getElem?_erase_eq, if_neg hne]
  · simp only [install]
    split
    next => rw [getElem?_erase_eq, if_neg hne]
    next => rfl

theorem chunk_frame {c : Chunk} (hne : c.mesh ≠ mesh) (fromRead : Bool)
    (installed : Option InstalledProjection) (owner : Option Birth) :
    Agree mesh rx (rx.chunk c fromRead installed owner).1 := by
  have hrefl := (Agree.equivalence mesh).refl rx
  have htaken : Agree mesh rx (rx.taken c fromRead owner) := Agree.erasePending hne
  generalize hout : rx.chunk c fromRead installed owner = out
  have hstep := chunk_step rx c fromRead installed owner
  rw [hout] at hstep
  cases hstep with
  | refused => exact hrefl
  | waiting =>
    refine ⟨fun k hk => ?_, rfl, rfl, rfl⟩
    rw [waits, getElem?_insert_eq, if_neg]
    rintro rfl
    exact hne hk
  | conflicting => exact htaken
  | installed => exact (Agree.equivalence mesh).trans htaken (install_frame hne _ _ _ _)

theorem delta_frame (hne : mesh' ≠ mesh) (source : PublisherId) (base version : Nat) (delta : Delta) :
    Agree mesh rx (rx.takeDelta mesh' source base version delta).1 := by
  have hrefl := (Agree.equivalence mesh).refl rx
  generalize hout : rx.takeDelta mesh' source base version delta = out
  have hstep := delta_step rx mesh' source base version delta
  rw [hout] at hstep
  cases hstep with
  | unbased => exact ⟨fun _ _ => rfl, rfl, by rw [getElem?_insert_eq, if_neg hne], rfl⟩
  | dropped => exact ⟨fun _ _ => rfl, rfl, rfl, by rw [dropAt, getElem?_insert_eq, if_neg hne]⟩
  | gap => exact Agree.insertHeld hne _
  | kept => exact hrefl
  | applied => exact Agree.insertHeld hne _

theorem adopt_frame (hne : mesh' ≠ mesh) (source : PublisherId)
    (installed : Option InstalledProjection) : Agree mesh rx (rx.adopt mesh' source installed) := by
  rcases adopt_cases rx mesh' source installed with hsame | ⟨i, _, _, _, hnew⟩
  · rw [hsame]
    exact (Agree.equivalence mesh).refl rx
  · rw [hnew]
    exact Agree.insertHeld hne _

theorem mark_frame (hne : mesh' ≠ mesh) (gap : Gap) : Agree mesh rx (rx.markDesynced mesh' gap).1 := by
  have hrefl := (Agree.equivalence mesh).refl rx
  unfold markDesynced
  split
  next => exact hrefl
  next =>
    split
    next => exact Agree.insertHeld hne _
    next => exact hrefl

theorem remove_frame (hne : mesh' ≠ mesh) : Agree mesh rx (rx.remove mesh') :=
  ⟨fun _ _ => rfl, by rw [SnapshotReceiver.remove, getElem?_erase_eq, if_neg hne],
    by rw [SnapshotReceiver.remove, getElem?_erase_eq, if_neg hne],
    by rw [SnapshotReceiver.remove, getElem?_erase_eq, if_neg hne]⟩

end Frame

theorem step_frame (rx : SnapshotReceiver) (call : Call) (mesh : String) (hne : call.mesh ≠ mesh) :
    Agree mesh rx (rx.step call).1 := by
  cases call with
  | takeChunk c => exact chunk_frame hne false none none
  | takeReadChunk c => exact chunk_frame hne true none none
  | takeChunkAgainst c fromRead installed => exact chunk_frame hne fromRead installed none
  | takeAuthoredChunk c owner installed => exact chunk_frame hne false installed owner
  | takeDelta mesh' source base version delta => exact delta_frame hne source base version delta
  | takeDeltaAgainst mesh' source base version delta installed =>
    have hadopt : Agree mesh rx (rx.adopt mesh' source installed) := adopt_frame hne source installed
    exact (Agree.equivalence mesh).trans hadopt (delta_frame hne source base version delta)
  | markDesynced mesh' gap => exact mark_frame hne gap
  | remove mesh' => exact remove_frame hne

/-- A receiver keeps its meshes apart. -/
theorem sharded : Sharded step Call.mesh Agree :=
  ⟨Agree.equivalence, step_frame, step_own⟩

/-- An unfinished assembly has a chunk, and is of more than one. -/
structure Unfinished (key : SourceKey) (p : PendingSnapshot) : Prop where
  entry : key.fromRead = true → key.owner = none
  many : 1 < p.count
  some_chunk : ∃ (i : UInt32) (parts : Parts), p.chunks[i]? = some parts ∧ i < p.count

def AllUnfinished (rx : SnapshotReceiver) : Prop :=
  ∀ (key : SourceKey) (p : PendingSnapshot), rx.pending[key]? = some p → Unfinished key p

theorem Joins.count {rx : SnapshotReceiver} {c : Chunk} {fromRead : Bool} {owner : Option Birth}
    (h : rx.Joins c fromRead owner) : (rx.joined c fromRead owner).count = c.chunkCount := by
  have hpending := h.pending
  simp only [joined, PendingSnapshot.add, assembly, againstPending] at hpending ⊢
  cases hp : rx.pending[sourceKey c fromRead owner]? with
  | none => rfl
  | some p =>
    rw [hp] at hpending
    by_cases hs : p.same c
    · simp only [Option.bind_eq_bind, Option.bind_some, if_pos hs, PendingSnapshot.has] at hpending ⊢
      by_contra hne
      simp [hne] at hpending
    · simp only [if_neg hs]
      rfl

theorem AllUnfinished.of_sub {rx ry : SnapshotReceiver} (h : AllUnfinished rx)
    (hsub : ∀ (key : SourceKey) (p : PendingSnapshot), ry.pending[key]? = some p →
      rx.pending[key]? = some p) : AllUnfinished ry :=
  fun key p hp => h key p (hsub key p hp)

theorem AllUnfinished.of_pending {rx ry : SnapshotReceiver} (h : AllUnfinished rx)
    (he : ry.pending = rx.pending) : AllUnfinished ry := by
  refine h.of_sub fun key p hp => ?_
  rw [← he]
  exact hp

theorem AllUnfinished.chunk {rx : SnapshotReceiver} (h : AllUnfinished rx) (c : Chunk)
    (fromRead : Bool) (installed : Option InstalledProjection) (owner : Option Birth)
    (ho : fromRead = true → owner = none) :
    AllUnfinished (rx.chunk c fromRead installed owner).1 := by
  have htaken : AllUnfinished (rx.taken c fromRead owner) := by
    refine h.of_sub fun key p hp => ?_
    rw [taken, getElem?_erase_eq] at hp
    split at hp
    next => simp at hp
    next => exact hp
  generalize hout : rx.chunk c fromRead installed owner = out
  have hstep := chunk_step rx c fromRead installed owner
  rw [hout] at hstep
  cases hstep with
  | refused => exact h
  | waiting hj hs =>
    intro key p hp
    rw [waits, getElem?_insert_eq] at hp
    split at hp
    next hk =>
      cases hp
      subst hk
      refine ⟨ho, ?_, c.chunkIndex, c.parts, ?_, ?_⟩
      · cases hold : rx.pending[sourceKey c fromRead owner]? with
        | none =>
          have hsize : (rx.joined c fromRead owner).chunks.size = 1 := by
            simp [joined, assembly, hold, PendingSnapshot.add, PendingSnapshot.fresh,
              ExtTreeMap.size_insert]
          rw [short, hsize] at hs
          exact hs
        | some q =>
          have hmany := (h _ q hold).many
          by_cases hsame : q.same c
          · have hcount : (rx.joined c fromRead owner).count = q.count := by
              simp only [joined, assembly, hold, PendingSnapshot.add, if_pos hsame]
            rw [hcount]
            exact hmany
          · have hsize : (rx.joined c fromRead owner).chunks.size = 1 := by
              simp [joined, assembly, hold, PendingSnapshot.add, hsame, PendingSnapshot.fresh,
                ExtTreeMap.size_insert]
            rw [short, hsize] at hs
            exact hs
      · rw [joined, PendingSnapshot.add, getElem?_insert_eq, if_pos rfl]
      · rw [hj.count]
        exact hj.index
    next => exact h key p hp
  | conflicting => exact htaken
  | installed =>
    refine htaken.of_sub fun key p hp => ?_
    simp only [install, ExtTreeMap.getElem?_filter', Option.filter_eq_some_iff] at hp
    exact hp.1

theorem AllUnfinished.delta {rx : SnapshotReceiver} (h : AllUnfinished rx) (mesh : String)
    (source : PublisherId) (base version : Nat) (delta : Delta) :
    AllUnfinished (rx.takeDelta mesh source base version delta).1 := by
  generalize hout : rx.takeDelta mesh source base version delta = out
  have hstep := delta_step rx mesh source base version delta
  rw [hout] at hstep
  cases hstep <;> exact h.of_pending rfl

theorem AllUnfinished.step {rx : SnapshotReceiver} (h : AllUnfinished rx) (call : Call) :
    AllUnfinished (rx.step call).1 := by
  cases call with
  | takeChunk c => exact h.chunk c false none none (by simp)
  | takeReadChunk c => exact h.chunk c true none none (by simp)
  | takeChunkAgainst c fromRead installed => exact h.chunk c fromRead installed none (by simp)
  | takeAuthoredChunk c owner installed => exact h.chunk c false installed owner (by simp)
  | takeDelta mesh source base version delta => exact h.delta mesh source base version delta
  | takeDeltaAgainst mesh source base version delta installed =>
    have hadopt : AllUnfinished (rx.adopt mesh source installed) := by
      rcases adopt_cases rx mesh source installed with hsame | ⟨i, _, _, _, hnew⟩
      · rw [hsame]
        exact h
      · rw [hnew]
        exact h.of_pending rfl
    exact hadopt.delta mesh source base version delta
  | markDesynced mesh gap =>
    refine h.of_pending ?_
    simp only [SnapshotReceiver.step, markDesynced, Prod.map_fst, id_eq]
    split
    next => rfl
    next => split <;> rfl
  | remove mesh => exact h.of_pending rfl

theorem AllUnfinished.run {rx : SnapshotReceiver} (h : AllUnfinished rx) (calls : List Call) :
    AllUnfinished (rx.run calls) := by
  induction calls generalizing rx with
  | nil => exact h
  | cons call calls ih => exact ih (h.step call)

theorem AllUnfinished.empty : AllUnfinished empty := by
  intro key p hp
  change (∅ : ExtTreeMap SourceKey PendingSnapshot sourceKeyCode.cmp)[key]? = some p at hp
  simp at hp

/-- The answers to the calls that name `mesh`. -/
def answersOf (rx : SnapshotReceiver) (mesh : String) (calls : List Call) : List Answer :=
  Shards.answersOf step Call.mesh mesh rx calls

/-- A receiver that took every call of `earlier` but those that name `mesh`. -/
def without (mesh : String) (earlier : List Call) : SnapshotReceiver :=
  empty.run (earlier.filter fun call => call.mesh ≠ mesh)

/-- After `earlier`, forgetting `mesh` leaves it as never taken and every other mesh as it is. -/
def Forgets (earlier : List Call) (mesh : String) : Prop :=
  ∀ later : List Call,
    ((empty.run earlier).remove mesh).answersOf mesh later = (without mesh earlier).answersOf mesh later ∧
    (((empty.run earlier).remove mesh).run later).held[mesh]? =
      ((without mesh earlier).run later).held[mesh]? ∧
    (((empty.run earlier).remove mesh).run later).unbased[mesh]? =
      ((without mesh earlier).run later).unbased[mesh]? ∧
    ∀ other, other ≠ mesh →
      ((empty.run earlier).remove mesh).answersOf other later = (empty.run earlier).answersOf other later

theorem without_agree (mesh : String) (earlier : List Call) : Agree mesh empty (without mesh earlier) := by
  refine sharded.untouched empty fun call hcall => ?_
  simpa using (List.mem_filter.mp hcall).2

theorem remove_agree {rx : SnapshotReceiver} {mesh : String}
    (h : ∀ (key : SourceKey) (p : PendingSnapshot), rx.pending[key]? = some p → key.mesh ≠ mesh) :
    Agree mesh (rx.remove mesh) empty := by
  refine ⟨fun key hkey => ?_, ?_, ?_, ?_⟩
  · change rx.pending[key]? = (∅ : ExtTreeMap SourceKey PendingSnapshot sourceKeyCode.cmp)[key]?
    cases hp : rx.pending[key]? with
    | none => simp
    | some p => exact absurd hkey (h key p hp)
  · change (rx.held.erase mesh)[mesh]? = (∅ : ExtTreeMap String Held)[mesh]?
    simp
  · change (rx.unbased.erase mesh)[mesh]? = (∅ : ExtTreeMap String Gap)[mesh]?
    simp
  · change (rx.dropped.erase mesh)[mesh]? = (∅ : ExtTreeMap String Nat)[mesh]?
    simp

/-- The chunk `i` of an assembly, as its source sends it. -/
def chunkAt (key : SourceKey) (p : PendingSnapshot) (i : UInt32) (parts : Parts) : Chunk :=
  ⟨key.mesh, key.publisher, none, p.version, p.snapshotId, i, p.count, parts⟩

/-- A chunk that an assembly left behind already has is a duplicate. -/
theorem remove_duplicate {rx : SnapshotReceiver} {key : SourceKey} {p : PendingSnapshot} {i : UInt32}
    {parts : Parts} (hp : rx.pending[key]? = some p) (hi : p.chunks[i]? = some parts)
    (hlt : i < p.count) :
    ((rx.remove key.mesh).chunk (chunkAt key p i parts) key.fromRead none key.owner).2 =
      .refused .duplicate := by
  have hheld : (rx.remove key.mesh).held[key.mesh]? = none := by
    simp [SnapshotReceiver.remove]
  have hsame : sameParts parts (chunkAt key p i parts) = true := Full.sameTopology_refl _
  have hhas : p.has (chunkAt key p i parts) = some .duplicate := by
    have hget : p.chunks[(chunkAt key p i parts).chunkIndex]? = some parts := hi
    simp only [PendingSnapshot.has, hget, Option.map_some, hsame, if_true]
    exact if_neg (fun hne => hne rfl)
  have hpending : (rx.remove key.mesh).againstPending
      (sourceKey (chunkAt key p i parts) key.fromRead key.owner) (chunkAt key p i parts) =
        some .duplicate := by
    have hkey : (rx.remove key.mesh).pending[sourceKey (chunkAt key p i parts) key.fromRead key.owner]? =
      some p := hp
    rw [againstPending, hkey]
    exact (if_pos ⟨rfl, rfl⟩).trans hhas
  rw [chunk_refused none hlt (againstHeld_none _ _ hheld) hpending]

/-- A chunk of more than one waits at a receiver that has nothing of its mesh. -/
theorem fresh_waiting {rx : SnapshotReceiver} {c : Chunk} (h : Agree c.mesh empty rx)
    (fromRead : Bool) (owner : Option Birth) (hlt : c.chunkIndex < c.chunkCount)
    (hmany : 1 < c.chunkCount) :
    ∃ held of, (rx.chunk c fromRead none owner).2 = .waiting held of := by
  have hheld : rx.held[c.mesh]? = none := by
    rw [← h.held]
    exact ExtTreeMap.getElem?_empty
  have hpending : rx.pending[sourceKey c fromRead owner]? = none := by
    rw [← h.pending _ rfl]
    exact ExtTreeMap.getElem?_empty
  have hj : rx.Joins c fromRead owner := by
    refine ⟨hlt, againstHeld_none _ _ hheld, ?_⟩
    rw [againstPending, hpending]
    rfl
  have hshort : short (rx.joined c fromRead owner) := by
    simp only [joined, assembly, hpending, short, PendingSnapshot.add, PendingSnapshot.fresh,
      ExtTreeMap.size_insert]
    exact hmany
  rw [chunk_waiting none hj hshort]
  exact ⟨_, _, rfl⟩

/-- Forgetting a mesh is complete exactly when no snapshot of it is half assembled. -/
theorem forgets_iff (earlier : List Call) (mesh : String) : Forgets earlier mesh ↔
    ∀ (key : SourceKey) (p : PendingSnapshot), (empty.run earlier).pending[key]? = some p →
      key.mesh ≠ mesh := by
  constructor
  · rintro h key p hp rfl
    obtain ⟨hentry, hmany, i, parts, hi, hlt⟩ := AllUnfinished.empty.run earlier key p hp
    have hduplicate := remove_duplicate hp hi hlt
    have hagree : Agree (chunkAt key p i parts).mesh empty (without key.mesh earlier) :=
      without_agree key.mesh earlier
    obtain ⟨held, of, hwaiting⟩ := fresh_waiting hagree key.fromRead key.owner hlt hmany
    have hmesh : (chunkAt key p i parts).mesh = key.mesh := rfl
    cases hread : key.fromRead with
    | true =>
      rw [hread, hentry hread] at hduplicate hwaiting
      have hanswer := (h [.takeReadChunk (chunkAt key p i parts)]).1
      simp [answersOf, Shards.answersOf, Call.mesh, hmesh, step, takeReadChunk, hduplicate,
        hwaiting] at hanswer
    | false =>
      rw [hread] at hduplicate hwaiting
      have hanswer := (h [.takeAuthoredChunk (chunkAt key p i parts) key.owner none]).1
      simp [answersOf, Shards.answersOf, Call.mesh, hmesh, step, takeAuthoredChunk, hduplicate,
        hwaiting] at hanswer
  · intro h later
    have hagree : Agree mesh ((empty.run earlier).remove mesh) (without mesh earlier) :=
      (Agree.equivalence mesh).trans (remove_agree h) (without_agree mesh earlier)
    have hrun := sharded.ran hagree later
    refine ⟨sharded.answers hagree later, hrun.held, hrun.unbased, fun other hother => ?_⟩
    have hkept : Agree other (empty.run earlier) ((empty.run earlier).remove mesh) :=
      remove_frame (Ne.symm hother)
    exact (sharded.answers hkept later).symm

/-- The first chunk of a snapshot of two, taken before the mesh is forgotten and again after. -/
theorem half_assembled_not_forgotten :
    ¬ Forgets [.takeChunk ⟨"mesh1", alice, none, 1, 1, 0, 2, ⟨[], [], []⟩⟩] "mesh1" := by
  intro h
  have hanswer := (h [.takeChunk ⟨"mesh1", alice, none, 1, 1, 0, 2, ⟨[], [], []⟩⟩]).1
  have hduplicate := congrArg (List.map Answer.isDuplicate) hanswer
  revert hduplicate
  decide +kernel

end SnapshotReceiver

end DistributedMesh
