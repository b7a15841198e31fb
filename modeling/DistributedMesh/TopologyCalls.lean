import DistributedMesh.Shards
import DistributedMesh.TopologyReceiver

namespace DistributedMesh

open Std (ExtTreeMap)
open KeyedMaps

/-- One call on a receiver. -/
inductive Call where
  | takeChunk (c : Chunk)
  | takeReadChunk (c : Chunk)
  | takeChunkAgainst (c : Chunk) (fromRead : Bool) (installed : Option InstalledProjection)
  | takeAuthoredChunk (c : Chunk) (owner : Option Birth) (installed : Option InstalledProjection)
  | takeDelta (mesh : String) (source : PublisherId) (base version : Nat) (delta : Delta)
  | takeDeltaAgainst (mesh : String) (source : PublisherId) (base version : Nat) (delta : Delta)
      (installed : Option InstalledProjection)
  | markDesynced (mesh : String) (gap : Gap)
  | remove (mesh : String)

inductive Answer where
  | taken (taken : Taken)
  | moved (moved : Moved)
  | marked (marked : Bool)
  | removed

def Call.mesh : Call → String
  | .takeChunk c | .takeReadChunk c | .takeChunkAgainst c _ _ | .takeAuthoredChunk c _ _ => c.mesh
  | .takeDelta mesh _ _ _ _ | .takeDeltaAgainst mesh _ _ _ _ _ | .markDesynced mesh _
  | .remove mesh => mesh

namespace SnapshotReceiver

def step (rx : SnapshotReceiver) : Call → SnapshotReceiver × Answer
  | .takeChunk c => (rx.takeChunk c).map id .taken
  | .takeReadChunk c => (rx.takeReadChunk c).map id .taken
  | .takeChunkAgainst c fromRead installed => (rx.takeChunkAgainst c fromRead installed).map id .taken
  | .takeAuthoredChunk c owner installed => (rx.takeAuthoredChunk c owner installed).map id .taken
  | .takeDelta mesh source base version delta =>
    (rx.takeDelta mesh source base version delta).map id .moved
  | .takeDeltaAgainst mesh source base version delta installed =>
    (rx.takeDeltaAgainst mesh source base version delta installed).map id .moved
  | .markDesynced mesh gap => (rx.markDesynced mesh gap).map id .marked
  | .remove mesh => (rx.remove mesh, .removed)

def run (rx : SnapshotReceiver) (calls : List Call) : SnapshotReceiver := Shards.run step rx calls

theorem run_append (rx : SnapshotReceiver) (xs ys : List Call) :
    rx.run (xs ++ ys) = (rx.run xs).run ys := Shards.run_append step rx xs ys

theorem run_concat (rx : SnapshotReceiver) (calls : List Call) (call : Call) :
    rx.run (calls ++ [call]) = ((rx.run calls).step call).1 := Shards.run_concat step rx calls call

/-- What a delta can do at the copy it is judged against. -/
inductive DeltaStep (rx : SnapshotReceiver) (mesh : String) (source : PublisherId)
    (base version : Nat) (delta : Delta) : SnapshotReceiver × Moved → Prop where
  | unbased (hn : rx.held[mesh]? = none) (hu : mesh ∉ rx.unbased) :
      DeltaStep rx mesh source base version delta
        ({ rx with unbased := rx.unbased.insert mesh .noBaseline }, .desynced mesh .noBaseline)
  | dropped (hd : (rx.held[mesh]? = none ∧ mesh ∈ rx.unbased) ∨ ∃ h, rx.held[mesh]? = some h ∧
        h.desynced.isSome = true ∧ (h.publisher = source → h.version < version)) :
      DeltaStep rx mesh source base version delta
        (rx.dropAt mesh version, .desynced mesh .alreadyDesynced)
  | gap (h : Held) (g : Gap) (hh : rx.held[mesh]? = some h) (hd : h.desynced = none)
      (hg : g ≠ .alreadyDesynced) :
      DeltaStep rx mesh source base version delta
        ({ rx with held := rx.held.insert mesh { h with desynced := some g } }, .desynced mesh g)
  | kept (h : Held) (moved : Moved) (hh : rx.held[mesh]? = some h) (hp : h.publisher = source)
      (hv : version ≤ h.version)
      (hm : moved = .stale ∨ moved = .inconsistent ∨ moved = .duplicate h.version) :
      DeltaStep rx mesh source base version delta (rx, moved)
  | applied (h : Held) (hh : rx.held[mesh]? = some h) (hp : h.publisher = source)
      (hv : h.version < version) (hd : h.desynced = none) (hb : h.version = base) :
      DeltaStep rx mesh source base version delta
        ({ rx with held := rx.held.insert mesh (h.move base version delta) },
          .applied mesh base version delta)

theorem delta_step (rx : SnapshotReceiver) (mesh : String) (source : PublisherId)
    (base version : Nat) (delta : Delta) :
    DeltaStep rx mesh source base version delta (rx.takeDelta mesh source base version delta) := by
  unfold takeDelta takeDeltaAtBase
  cases hh : rx.held[mesh]? with
  | none =>
    by_cases hu : mesh ∈ rx.unbased
    · have hsame : rx.unbased.insertIfNew mesh .noBaseline = rx.unbased := by
        refine ExtTreeMap.ext_getElem? fun k => ?_
        rw [ExtTreeMap.getElem?_insertIfNew]
        split
        next hk =>
          have hk : mesh = k := by simpa using hk.1
          exact absurd (hk ▸ hu) (by simp_all)
        next => rfl
      simp only [if_pos hu, hsame]
      exact .dropped (Or.inl ⟨hh, hu⟩)
    · have hsame : rx.unbased.insertIfNew mesh .noBaseline = rx.unbased.insert mesh .noBaseline := by
        refine ExtTreeMap.ext_getElem? fun k => ?_
        rw [ExtTreeMap.getElem?_insertIfNew, ExtTreeMap.getElem?_insert]
        by_cases hk : mesh = k
        · subst hk
          simp [hu]
        · simp [hk]
      simp only [if_neg hu, hsame]
      exact .unbased hh hu
  | some h =>
    by_cases hp : h.publisher = source
    · simp only [hp, ne_eq, not_true_eq_false, if_false]
      by_cases hstale : version < h.version
      · simp only [hstale, if_true]
        exact .kept h _ hh hp (by omega) (Or.inl rfl)
      · simp only [hstale, if_false]
        by_cases heq : h.version = version
        · simp only [heq, if_true]
          by_cases hr : repeats h base delta = true
          · simp only [hr, if_true]
            exact .kept h _ hh hp (by omega) (Or.inr (Or.inr (by rw [heq])))
          · simp only [hr]
            exact .kept h _ hh hp (by omega) (Or.inr (Or.inl rfl))
        · simp only [heq, if_false]
          have hlt : h.version < version := by omega
          cases hd : h.desynced with
          | some g =>
            simp only [Option.isSome_some, if_true]
            exact .dropped (Or.inr ⟨h, hh, by simp [hd], fun _ => hlt⟩)
          | none =>
            simp only [Option.isSome_none, Bool.false_eq_true, if_false]
            by_cases hb : h.version = base
            · simp only [hb, not_true_eq_false, if_false]
              exact .applied h hh hp hlt hd hb
            · simp only [hb, not_false_eq_true, if_true, desync, hd]
              exact .gap h _ hh hd (by simp)
    · simp only [hp, ne_eq, not_false_eq_true, if_true, desync]
      cases hd : h.desynced with
      | some g => exact .dropped (Or.inr ⟨h, hh, by simp [hd], fun he => absurd he hp⟩)
      | none => exact .gap h _ hh hd (by simp)

end SnapshotReceiver

end DistributedMesh
