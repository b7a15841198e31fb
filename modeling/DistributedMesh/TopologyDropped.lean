import Mathlib.Data.List.Induction
import DistributedMesh.TopologyForget

namespace DistributedMesh

open Std (ExtTreeMap)
open KeyedMaps

def Call.chunkOf : Call → Option Chunk
  | .takeChunk c | .takeReadChunk c | .takeChunkAgainst c _ _ | .takeAuthoredChunk c _ _ => some c
  | _ => none

/-- The mesh, the source and the version of a delta. -/
def Call.deltaOf : Call → Option (String × PublisherId × Nat)
  | .takeDelta mesh source _ version _ | .takeDeltaAgainst mesh source _ version _ _ =>
    some (mesh, source, version)
  | _ => none

def Call.isRemove : Call → Bool
  | .remove _ => true
  | _ => false

/-- The call names no publisher but `publisher` and brings no image. -/
def Call.Of (publisher : PublisherId) : Call → Prop
  | .takeChunk c | .takeReadChunk c | .takeChunkAgainst c _ _ | .takeAuthoredChunk c _ _ =>
    c.publisher = publisher
  | .takeDelta _ source _ _ _ => source = publisher
  | .markDesynced _ _ => True
  | .takeDeltaAgainst _ _ _ _ _ _ | .remove _ => False

def Answer.install : Answer → Option Install
  | .taken (.installed i) => some i
  | _ => none

theorem Answer.install_eq_some {answer : Answer} {i : Install} (h : answer.install = some i) :
    answer = .taken (.installed i) := by
  cases answer with
  | taken taken => cases taken <;> simp_all [Answer.install]
  | _ => simp [Answer.install] at h

namespace SnapshotReceiver

/-- The call is a delta of `publisher` to `version`, dropped at an already desynchronized source. -/
def DropsAt (rx : SnapshotReceiver) (call : Call) (mesh : String) (publisher : PublisherId)
    (version : Nat) : Prop :=
  call.deltaOf = some (mesh, publisher, version) ∧
    (rx.step call).2 = .moved (.desynced mesh .alreadyDesynced)

/-- A delta of `publisher` to `version` was dropped, and `keep` holds in every state since. -/
inductive DroppedSince (keep : SnapshotReceiver → Prop) (mesh : String) (publisher : PublisherId)
    (version : Nat) : List Call → Prop where
  | drop {calls : List Call} {call : Call} (h : (empty.run calls).DropsAt call mesh publisher version)
      (hk : keep (empty.run (calls ++ [call]))) :
      DroppedSince keep mesh publisher version (calls ++ [call])
  | later {calls : List Call} {call : Call} (h : DroppedSince keep mesh publisher version calls)
      (hk : keep (empty.run (calls ++ [call]))) :
      DroppedSince keep mesh publisher version (calls ++ [call])

theorem droppedSince_concat {keep : SnapshotReceiver → Prop} {mesh : String} {publisher : PublisherId}
    {version : Nat} (calls : List Call) (call : Call) :
    DroppedSince keep mesh publisher version (calls ++ [call]) ↔
      ((empty.run calls).DropsAt call mesh publisher version ∨
        DroppedSince keep mesh publisher version calls) ∧ keep (empty.run (calls ++ [call])) := by
  constructor
  · intro h
    generalize hall : calls ++ [call] = all at h
    cases h with
    | drop h hk =>
      obtain ⟨rfl, hlast⟩ := List.append_inj' hall rfl
      cases hlast
      exact ⟨Or.inl h, hk⟩
    | later h hk =>
      obtain ⟨rfl, hlast⟩ := List.append_inj' hall rfl
      cases hlast
      exact ⟨Or.inr h, hk⟩
  · rintro ⟨h | h, hk⟩
    · exact .drop h hk
    · exact .later h hk

theorem not_droppedSince_nil {keep : SnapshotReceiver → Prop} {mesh : String} {publisher : PublisherId}
    {version : Nat} : ¬ DroppedSince keep mesh publisher version [] := by
  intro h
  generalize hall : ([] : List Call) = all at h
  cases h with
  | drop => simp at hall
  | later => simp at hall

/-- A delta of `publisher` to `version` was dropped and the mesh was not held at a version of that
publisher as high since. -/
def Unreached (calls : List Call) (mesh : String) (publisher : PublisherId) (version : Nat) : Prop :=
  DroppedSince (fun rx => ∀ h, rx.held[mesh]? = some h → h.publisher = publisher → h.version < version)
    mesh publisher version calls

/-- A delta of `publisher` to `version` was dropped and the mesh has had a floor ever since. -/
def Stored (calls : List Call) (mesh : String) (publisher : PublisherId) (version : Nat) : Prop :=
  DroppedSince (fun rx => mesh ∈ rx.dropped) mesh publisher version calls

/-- The receiver adopts the image the call brings. -/
def Adopts (rx : SnapshotReceiver) (call : Call) (mesh : String) (source : PublisherId)
    (version : Nat) : Prop :=
  ∃ base next delta i, call = .takeDeltaAgainst mesh source base next delta (some i) ∧
    i.publisher = source ∧ i.version = version ∧
    ∀ h, rx.held[mesh]? = some h → h.publisher = source → h.version < version

/-- What one call does to a mesh's held copy and floor. -/
inductive FloorStep (rx ry : SnapshotReceiver) (call : Call) (mesh : String) : Prop where
  | quiet (hn : ∀ p d, ¬ rx.DropsAt call mesh p d) (hd : ry.dropped[mesh]? = rx.dropped[mesh]?)
      (hh : ry.heldVersion mesh = rx.heldVersion mesh)
      (hs : ∀ h h', rx.held[mesh]? = some h → ry.held[mesh]? = some h' → h.desynced.isSome = true →
        h'.desynced.isSome = true)
  | moved (h h' : Held) (hn : ∀ p d, ¬ rx.DropsAt call mesh p d)
      (hd : ry.dropped[mesh]? = rx.dropped[mesh]?) (hh : rx.held[mesh]? = some h)
      (hh' : ry.held[mesh]? = some h') (hp : h'.publisher = h.publisher) (hs : h.desynced = none)
      (hv : h.version < h'.version)
  | adopted (source : PublisherId) (version : Nat) (h' : Held) (ha : rx.Adopts call mesh source version)
      (hn : ∀ p d, ¬ rx.DropsAt call mesh p d) (hd : ry.dropped[mesh]? = rx.dropped[mesh]?)
      (hh' : ry.held[mesh]? = some h') (hp : h'.publisher = source) (hv : version ≤ h'.version)
  | installed (c : Chunk) (h' : Held) (hc : call.chunkOf = some c) (hm : c.mesh = mesh)
      (hh' : ry.held[mesh]? = some h') (hp : h'.publisher = c.publisher)
      (hv : ∀ h, rx.held[mesh]? = some h → h.publisher = c.publisher → h.version ≤ h'.version)
      (hd : ry.dropped[mesh]? = rx.dropped[mesh]?.filter fun d => d > h'.version)
      (hs : h'.desynced.isSome = ry.dropped[mesh]?.isSome) (hu : mesh ∉ ry.unbased)
  | dropped (source : PublisherId) (version : Nat)
      (hn : ∀ p d, rx.DropsAt call mesh p d ↔ p = source ∧ d = version)
      (hd : ry.dropped[mesh]? = some (max (rx.dropped[mesh]?.getD version) version))
      (hh : ry.held[mesh]? = rx.held[mesh]?)
      (hs : ∀ h, rx.held[mesh]? = some h →
        h.desynced.isSome = true ∧ (h.publisher = source → h.version < version))

theorem DropsAt.not_chunk (rx : SnapshotReceiver) {call : Call} {c : Chunk} (hc : call.chunkOf = some c)
    (mesh : String) (p : PublisherId) (d : Nat) : ¬ rx.DropsAt call mesh p d := by
  rintro ⟨hdelta, _⟩
  cases call <;> simp_all [Call.chunkOf, Call.deltaOf]

theorem FloorStep.of_agree {rx ry : SnapshotReceiver} {call : Call} {mesh : String}
    (hn : ∀ p d, ¬ rx.DropsAt call mesh p d) (h : Agree mesh rx ry) : FloorStep rx ry call mesh := by
  refine .quiet hn h.dropped.symm ?_ fun k k' hk hk' hs => ?_
  · rw [heldVersion, heldVersion, h.held]
  · rw [h.held, hk'] at hk
    cases hk
    exact hs

theorem FloorStep.refl {rx : SnapshotReceiver} {call : Call} {mesh : String}
    (hn : ∀ p d, ¬ rx.DropsAt call mesh p d) : FloorStep rx rx call mesh :=
  .of_agree hn ((Agree.equivalence mesh).refl rx)

theorem install_dropped (rx : SnapshotReceiver) (mesh : String) (publisher : PublisherId)
    (p : PendingSnapshot) (full : Full) (fromRead : Bool) :
    (rx.install mesh publisher p full fromRead).1.dropped[mesh]? =
      rx.dropped[mesh]?.filter fun d => d > p.version := by
  simp only [install]
  split
  next hnone =>
    rw [Option.isNone_iff_eq_none.mp hnone, getElem?_erase_eq, if_pos rfl]
  next hsome =>
    cases hd : rx.dropped[mesh]? with
    | none => simp [hd] at hsome
    | some d =>
      by_cases hv : d > p.version
      · rw [Option.filter_some, if_pos (decide_eq_true hv)]
      · simp [hd, hv] at hsome

theorem chunk_floorStep {rx : SnapshotReceiver} {call : Call} {c : Chunk} {fromRead : Bool}
    {installed : Option InstalledProjection} {owner : Option Birth} (hc : call.chunkOf = some c) :
    FloorStep rx (rx.chunk c fromRead installed owner).1 call c.mesh := by
  have hn := DropsAt.not_chunk rx hc c.mesh
  have hsame : ∀ pending, FloorStep rx { rx with pending } call c.mesh := by
    intro pending
    refine .quiet hn rfl rfl fun k k' hk hk' hs => ?_
    rw [hk] at hk'
    cases hk'
    exact hs
  generalize hout : rx.chunk c fromRead installed owner = out
  have hstep := chunk_step rx c fromRead installed owner
  rw [hout] at hstep
  cases hstep with
  | refused => exact FloorStep.refl hn
  | waiting => exact hsame _
  | conflicting => exact hsame _
  | installed hj =>
    have hver : (rx.joined c fromRead owner).version = c.topologyVersion := (assembly_version _ _ _).1
    refine .installed c _ hc rfl (by simp only [install, getElem?_insert_eq, if_true]; rfl) rfl ?_ ?_ ?_ ?_
    · intro h hh hp
      exact hver ▸ hj.not_older hh hp
    · exact install_dropped _ _ _ _ _ _
    · rw [install_dropped]
      exact Option.isSome_map
    · simp [install]

theorem DropsAt.answer {rx : SnapshotReceiver} {call : Call} {mesh mesh' : String}
    {source p : PublisherId} {version d : Nat} {moved : Moved}
    (h : rx.DropsAt call mesh p d) (hd : call.deltaOf = some (mesh', source, version))
    (hs : (rx.step call).2 = .moved moved) :
    p = source ∧ d = version ∧ moved = .desynced mesh .alreadyDesynced := by
  obtain ⟨hdelta, hanswer⟩ := h
  rw [hd] at hdelta
  cases hdelta
  rw [hs] at hanswer
  exact ⟨rfl, rfl, by simpa using hanswer⟩

/-- A delta judged against the held copy as it stands. -/
theorem delta_floorStep {rx : SnapshotReceiver} {call : Call} {mesh : String} {source : PublisherId}
    {base version : Nat} {delta : Delta} (hcall : call.deltaOf = some (mesh, source, version))
    (hstep : rx.step call = (rx.takeDelta mesh source base version delta).map id .moved) :
    FloorStep rx (rx.step call).1 call mesh := by
  have hanswer : (rx.step call).2 = .moved (rx.takeDelta mesh source base version delta).2 := by
    rw [hstep]
    rfl
  have hstate : (rx.step call).1 = (rx.takeDelta mesh source base version delta).1 := by
    rw [hstep]
    rfl
  rw [hstate]
  generalize hout : rx.takeDelta mesh source base version delta = out at hanswer
  have hds := delta_step rx mesh source base version delta
  rw [hout] at hds
  have hkeep : ∀ moved : Moved, (rx.step call).2 = .moved moved →
      moved ≠ .desynced mesh .alreadyDesynced → ∀ p d, ¬ rx.DropsAt call mesh p d :=
    fun moved hm hne p d hdrop => hne (hdrop.answer hcall hm).2.2
  cases hds with
  | unbased hno =>
    refine .quiet (hkeep _ hanswer (by simp)) rfl rfl fun k k' hk => ?_
    rw [hno] at hk
    simp at hk
  | dropped hd =>
    refine .dropped source version (fun p d => ⟨fun hdrop => ?_, ?_⟩) ?_ rfl fun h hh => ?_
    · obtain ⟨hp, hv, _⟩ := hdrop.answer hcall hanswer
      exact ⟨hp, hv⟩
    · rintro ⟨rfl, rfl⟩
      exact ⟨hcall, hanswer⟩
    · rw [dropAt, getElem?_insert_eq, if_pos rfl]
    · rcases hd with ⟨hno, _⟩ | ⟨k, hk, hs, hv⟩
      · rw [hno] at hh
        simp at hh
      · rw [hh] at hk
        cases hk
        exact ⟨hs, hv⟩
  | gap h g hh hd hg =>
    refine .quiet (hkeep _ hanswer (by simp [hg])) rfl ?_ fun k k' hk hk' hs => ?_
    · simp only [heldVersion, getElem?_insert_eq, if_true, hh, Option.map_some]
    · rw [getElem?_insert_eq, if_pos rfl] at hk'
      cases hk'
      rfl
  | kept h moved hh hp hv hm =>
    refine FloorStep.refl (hkeep _ hanswer ?_)
    rcases hm with rfl | rfl | rfl <;> simp
  | applied h hh hp hv hd hb =>
    refine .moved h (h.move base version delta) (hkeep _ hanswer (by simp)) rfl hh ?_ rfl hd hv
    rw [getElem?_insert_eq, if_pos rfl]

/-- A delta judged against an adopted image. -/
theorem adopted_floorStep {rx sx : SnapshotReceiver} {call : Call} {mesh : String}
    {source : PublisherId} {base version : Nat} {delta : Delta} {k : Held}
    (hcall : call.deltaOf = some (mesh, source, version)) (ha : rx.Adopts call mesh source k.version)
    (hk : sx.held[mesh]? = some k) (hp : k.publisher = source) (hs : k.desynced = none)
    (hd : sx.dropped = rx.dropped)
    (hstep : rx.step call = (sx.takeDelta mesh source base version delta).map id .moved) :
    FloorStep rx (rx.step call).1 call mesh := by
  have hanswer : (rx.step call).2 = .moved (sx.takeDelta mesh source base version delta).2 := by
    rw [hstep]
    rfl
  have hstate : (rx.step call).1 = (sx.takeDelta mesh source base version delta).1 := by
    rw [hstep]
    rfl
  rw [hstate]
  generalize hout : sx.takeDelta mesh source base version delta = out at hanswer
  have hds := delta_step sx mesh source base version delta
  rw [hout] at hds
  have hkeep : ∀ moved : Moved, (rx.step call).2 = .moved moved →
      moved ≠ .desynced mesh .alreadyDesynced → ∀ p d, ¬ rx.DropsAt call mesh p d :=
    fun moved hm hne p d hdrop => hne (hdrop.answer hcall hm).2.2
  cases hds with
  | unbased hno =>
    rw [hk] at hno
    simp at hno
  | dropped hdrop =>
    rcases hdrop with ⟨hno, _⟩ | ⟨h, hh, hsome, _⟩
    · rw [hk] at hno
      simp at hno
    · rw [hk] at hh
      cases hh
      simp [hs] at hsome
  | gap h g hh _ hg =>
    rw [hk] at hh
    cases hh
    refine .adopted source k.version { k with desynced := some g } ha (hkeep _ hanswer (by simp [hg]))
      (by rw [hd]) ?_ hp (Nat.le_refl _)
    rw [getElem?_insert_eq, if_pos rfl]
  | kept h moved hh _ _ hm =>
    refine .adopted source k.version k ha (hkeep _ hanswer ?_) (by rw [hd]) hk hp (Nat.le_refl _)
    rcases hm with rfl | rfl | rfl <;> simp
  | applied h hh _ hv =>
    rw [hk] at hh
    cases hh
    refine .adopted source k.version (k.move base version delta) ha (hkeep _ hanswer (by simp))
      (by rw [hd]) ?_ hp (Nat.le_of_lt hv)
    rw [getElem?_insert_eq, if_pos rfl]

theorem step_floorStep (rx : SnapshotReceiver) (call : Call) (mesh : String)
    (hr : call.isRemove = false) : FloorStep rx (rx.step call).1 call mesh := by
  by_cases hm : call.mesh = mesh
  · subst hm
    cases call with
    | takeChunk c => exact chunk_floorStep rfl
    | takeReadChunk c => exact chunk_floorStep rfl
    | takeChunkAgainst c fromRead installed => exact chunk_floorStep rfl
    | takeAuthoredChunk c owner installed => exact chunk_floorStep rfl
    | takeDelta mesh source base version delta => exact delta_floorStep rfl rfl
    | takeDeltaAgainst mesh source base version delta installed =>
      rcases adopt_cases rx mesh source installed with hsame | ⟨i, hi, hp, hold, hnew⟩
      · have hstep : rx.step (.takeDeltaAgainst mesh source base version delta installed) =
            (rx.takeDelta mesh source base version delta).map id .moved := by
          simp only [step, takeDeltaAgainst, hsame]
        exact delta_floorStep rfl hstep
      · have hget : (rx.adopt mesh source installed).held[mesh]? =
            some ⟨source, i.version, i.full, none, none, none⟩ := by
          rw [hnew, getElem?_insert_eq, if_pos rfl]
        have ha : rx.Adopts (.takeDeltaAgainst mesh source base version delta installed) mesh source
            i.version := ⟨base, version, delta, i, by rw [hi], hp, rfl, hold⟩
        exact adopted_floorStep (k := ⟨source, i.version, i.full, none, none, none⟩) rfl ha hget rfl rfl
          (by rw [hnew]) rfl
    | markDesynced mesh gap =>
      have hn : ∀ p d, ¬ rx.DropsAt (.markDesynced mesh gap) mesh p d := by
        rintro p d ⟨hd, _⟩
        simp [Call.deltaOf] at hd
      simp only [step, markDesynced, Call.mesh, Prod.map_fst, id_eq]
      cases hh : rx.held[mesh]? with
      | none => exact FloorStep.refl hn
      | some h =>
        dsimp only
        split
        next =>
          refine .quiet hn rfl ?_ fun k k' _ hk' _ => ?_
          · simp only [heldVersion, getElem?_insert_eq, if_true, hh, Option.map_some]
          · rw [getElem?_insert_eq, if_pos rfl] at hk'
            cases hk'
            rfl
        next => exact FloorStep.refl hn
    | remove mesh => simp [Call.isRemove] at hr
  · refine FloorStep.of_agree ?_ (step_frame rx call mesh hm)
    rintro p d ⟨hd, _⟩
    cases call <;> simp_all [Call.deltaOf, Call.mesh]

/-- A floor meets its own publisher alone: a chunk taken while a mesh has a floor is of the
publisher whose deltas were dropped, and so is an image adopted then, at or above the floor. -/
structure KeepsFloor (calls : List Call) (call : Call) : Prop where
  chunk : ∀ c, call.chunkOf = some c → ∀ p d, Stored calls c.mesh p d → p = c.publisher
  image : ∀ mesh source version, (empty.run calls).Adopts call mesh source version →
    ∀ p d, Stored calls mesh p d → p = source ∧ d ≤ version

/-- What is known of a mesh's floor after a run. -/
structure FloorInv (calls : List Call) (mesh : String) : Prop where
  stored : ∀ f, (empty.run calls).dropped[mesh]? = some f → ∃ p, Stored calls mesh p f
  bound : ∀ p d, Stored calls mesh p d → ∃ f, (empty.run calls).dropped[mesh]? = some f ∧ d ≤ f
  unreached : ∀ p d, Unreached calls mesh p d → Stored calls mesh p d
  reached : ∀ p d, Stored calls mesh p d → Unreached calls mesh p d ∨
    ∃ h, (empty.run calls).held[mesh]? = some h ∧ h.publisher = p ∧ d ≤ h.version
  behind : ∀ f h, (empty.run calls).dropped[mesh]? = some f →
    (empty.run calls).held[mesh]? = some h → h.version < f → h.desynced.isSome = true

theorem FloorInv.nil (mesh : String) : FloorInv [] mesh := by
  have hnone : ∀ f, (empty.run []).dropped[mesh]? ≠ some f := by
    intro f hf
    have hf : (∅ : ExtTreeMap String Nat)[mesh]? = some f := hf
    simp at hf
  refine ⟨fun f hf => absurd hf (hnone f), ?_, ?_, ?_, fun f h hf => absurd hf (hnone f)⟩
  · exact fun p d h => absurd h not_droppedSince_nil
  · exact fun p d h => absurd h not_droppedSince_nil
  · exact fun p d h => absurd h not_droppedSince_nil

/-- A version unreached so far stays so over a call, unless the call reaches it. -/
theorem Unreached.concat {calls : List Call} {mesh : String} {p : PublisherId} {d : Nat}
    (hu : Unreached calls mesh p d) (call : Call) : Unreached (calls ++ [call]) mesh p d ∨
      ∃ h, (empty.run (calls ++ [call])).held[mesh]? = some h ∧ h.publisher = p ∧ d ≤ h.version := by
  by_cases hv : ∀ k, (empty.run (calls ++ [call])).held[mesh]? = some k → k.publisher = p → k.version < d
  · exact Or.inl ((droppedSince_concat _ _).mpr ⟨Or.inr hu, hv⟩)
  · simp only [not_forall, Nat.not_lt, exists_prop] at hv
    exact Or.inr hv

/-- The invariant over a call that drops nothing at the mesh and keeps its floor. -/
theorem FloorInv.kept {calls : List Call} {call : Call} {mesh : String} (hi : FloorInv calls mesh)
    (hn : ∀ p d, ¬ (empty.run calls).DropsAt call mesh p d)
    (hd : (empty.run (calls ++ [call])).dropped[mesh]? = (empty.run calls).dropped[mesh]?)
    (hr : ∀ p d h, Stored calls mesh p d → (empty.run calls).held[mesh]? = some h → h.publisher = p →
      d ≤ h.version → ∃ h', (empty.run (calls ++ [call])).held[mesh]? = some h' ∧ h'.publisher = p ∧
        d ≤ h'.version)
    (hb : ∀ f h, (empty.run calls).dropped[mesh]? = some f →
      (empty.run (calls ++ [call])).held[mesh]? = some h → h.version < f → h.desynced.isSome = true) :
    FloorInv (calls ++ [call]) mesh := by
  have hmem : mesh ∈ (empty.run (calls ++ [call])).dropped ↔ mesh ∈ (empty.run calls).dropped := by
    rw [mem_iff_getElem?, mem_iff_getElem?, hd]
  have hstored : ∀ p d, Stored (calls ++ [call]) mesh p d ↔ Stored calls mesh p d := by
    intro p d
    rw [Stored, droppedSince_concat, hmem]
    constructor
    · rintro ⟨h | h, _⟩
      · exact absurd h (hn p d)
      · exact h
    · intro h
      obtain ⟨f, hf, _⟩ := hi.bound p d h
      exact ⟨Or.inr h, mem_of_lookup hf⟩
  refine ⟨fun f hf => ?_, fun p d h => ?_, fun p d h => ?_, fun p d h => ?_, fun f h hf hh hv => ?_⟩
  · obtain ⟨p, hp⟩ := hi.stored f (hd ▸ hf)
    exact ⟨p, (hstored p f).mpr hp⟩
  · rw [hd]
    exact hi.bound p d ((hstored p d).mp h)
  · rw [hstored]
    rw [Unreached, droppedSince_concat] at h
    rcases h.1 with h | h
    · exact absurd h (hn p d)
    · exact hi.unreached p d h
  · have hold := (hstored p d).mp h
    rcases hi.reached p d hold with hu | ⟨k, hk, hp, hkd⟩
    · exact hu.concat call
    · exact Or.inr (hr p d k hold hk hp hkd)
  · exact hb f h (hd ▸ hf) hh hv

/-- The invariant over a call that leaves the mesh's floor and held version as they are. -/
theorem FloorInv.quiet {calls : List Call} {call : Call} {mesh : String} (hi : FloorInv calls mesh)
    (hn : ∀ p d, ¬ (empty.run calls).DropsAt call mesh p d)
    (hd : (empty.run (calls ++ [call])).dropped[mesh]? = (empty.run calls).dropped[mesh]?)
    (hh : (empty.run (calls ++ [call])).heldVersion mesh = (empty.run calls).heldVersion mesh)
    (hs : ∀ h h', (empty.run calls).held[mesh]? = some h →
      (empty.run (calls ++ [call])).held[mesh]? = some h' → h.desynced.isSome = true →
        h'.desynced.isSome = true) : FloorInv (calls ++ [call]) mesh := by
  rw [heldVersion, heldVersion] at hh
  refine hi.kept hn hd (fun p d h hst hk hp hkd => ?_) fun f h' hf hh' hv => ?_
  · rw [hk] at hh
    obtain ⟨h', hk', he⟩ := Option.map_eq_some_iff.mp hh
    obtain ⟨hp', hv'⟩ := Prod.mk.inj he
    exact ⟨h', hk', hp'.trans hp, by omega⟩
  · rw [hh'] at hh
    obtain ⟨h, hk, he⟩ := Option.map_eq_some_iff.mp hh.symm
    have hver := (Prod.mk.inj he).2
    exact hs h h' hk hh' (hi.behind f h hf hk (by omega))

/-- The invariant over a call that drops nothing and clears the floor: the copy it installs is of the
publisher whose deltas were dropped and reaches them all. -/
theorem FloorInv.cleared {calls : List Call} {call : Call} {mesh : String} (hi : FloorInv calls mesh)
    {h' : Held} (hn : ∀ p d, ¬ (empty.run calls).DropsAt call mesh p d)
    (hh' : (empty.run (calls ++ [call])).held[mesh]? = some h')
    (hown : ∀ p d, Stored calls mesh p d → p = h'.publisher)
    (hd : (empty.run calls).dropped[mesh]?.filter (fun d => d > h'.version) = none)
    (hf : (empty.run (calls ++ [call])).dropped[mesh]? = none) : FloorInv (calls ++ [call]) mesh := by
  have hmem : mesh ∉ (empty.run (calls ++ [call])).dropped := not_mem_of_lookup hf
  have hgone : ∀ p d, ¬ Stored (calls ++ [call]) mesh p d := by
    intro p d h
    exact hmem ((droppedSince_concat _ _).mp h).2
  refine ⟨fun f hsome => ?_, fun p d h => absurd h (hgone p d), fun p d h => ?_,
    fun p d h => absurd h (hgone p d), fun f h hsome => ?_⟩
  · rw [hf] at hsome
    simp at hsome
  · obtain ⟨h | h, hlt⟩ := (droppedSince_concat _ _).mp h
    · exact absurd h (hn p d)
    · have hst := hi.unreached p d h
      obtain ⟨f, hff, hdf⟩ := hi.bound p d hst
      have hle : f ≤ h'.version := by
        rw [hff, Option.filter_some] at hd
        by_contra hgt
        simp [Nat.lt_of_not_le hgt] at hd
      have hver := hlt h' hh' (hown p d hst).symm
      omega
  · rw [hf] at hsome
    simp at hsome

/-- The invariant over a call that drops a delta, which raises the floor to its version. -/
theorem FloorInv.dropped {calls : List Call} {call : Call} {mesh : String} (hi : FloorInv calls mesh)
    {source : PublisherId} {version : Nat}
    (hn : ∀ p d, (empty.run calls).DropsAt call mesh p d ↔ p = source ∧ d = version)
    (hd : (empty.run (calls ++ [call])).dropped[mesh]? =
      some (max ((empty.run calls).dropped[mesh]?.getD version) version))
    (hh : (empty.run (calls ++ [call])).held[mesh]? = (empty.run calls).held[mesh]?)
    (hs : ∀ h, (empty.run calls).held[mesh]? = some h →
      h.desynced.isSome = true ∧ (h.publisher = source → h.version < version)) :
    FloorInv (calls ++ [call]) mesh := by
  have hmem : mesh ∈ (empty.run (calls ++ [call])).dropped := mem_of_lookup hd
  have hnew : Unreached (calls ++ [call]) mesh source version := by
    refine (droppedSince_concat _ _).mpr ⟨Or.inl ((hn _ _).mpr ⟨rfl, rfl⟩), fun h hk hp => ?_⟩
    rw [hh] at hk
    exact (hs h hk).2 hp
  have hstored : ∀ p d, Stored (calls ++ [call]) mesh p d ↔
      (p = source ∧ d = version) ∨ Stored calls mesh p d := by
    intro p d
    rw [Stored, droppedSince_concat, hn]
    exact ⟨fun h => h.1, fun h => ⟨h, hmem⟩⟩
  refine ⟨fun f hf => ?_, fun p d h => ?_, fun p d h => ?_, fun p d h => ?_, fun f h _ hk _ => ?_⟩
  · rw [hd] at hf
    have hf := Option.some.inj hf
    cases hold : (empty.run calls).dropped[mesh]? with
    | none =>
      rw [hold, Option.getD_none, Nat.max_self] at hf
      exact ⟨source, (hstored source f).mpr (Or.inl ⟨rfl, hf.symm⟩)⟩
    | some g =>
      rw [hold, Option.getD_some] at hf
      rcases Nat.le_total g version with hle | hle
      · exact ⟨source, (hstored source f).mpr (Or.inl ⟨rfl, by omega⟩)⟩
      · obtain ⟨p, hp⟩ := hi.stored g hold
        have hgf : f = g := by omega
        exact ⟨p, (hstored p f).mpr (Or.inr (hgf ▸ hp))⟩
  · refine ⟨_, hd, ?_⟩
    rcases (hstored p d).mp h with ⟨_, rfl⟩ | h
    · exact Nat.le_max_right _ _
    · obtain ⟨f, hf, hdf⟩ := hi.bound p d h
      rw [hf, Option.getD_some]
      omega
  · rw [hstored]
    rcases ((droppedSince_concat _ _).mp h).1 with h | h
    · exact Or.inl ((hn p d).mp h)
    · exact Or.inr (hi.unreached p d h)
  · rcases (hstored p d).mp h with ⟨rfl, rfl⟩ | h
    · exact Or.inl hnew
    · rcases hi.reached p d h with hu | ⟨k, hk, hp, hkd⟩
      · exact hu.concat call
      · exact Or.inr ⟨k, by rw [hh]; exact hk, hp, hkd⟩
  · rw [hh] at hk
    exact (hs h hk).1

theorem FloorInv.step {calls : List Call} {call : Call} {mesh : String} (hi : FloorInv calls mesh)
    (hc : KeepsFloor calls call) (hr : call.isRemove = false) : FloorInv (calls ++ [call]) mesh := by
  have hrun : empty.run (calls ++ [call]) = ((empty.run calls).step call).1 := run_concat _ _ _
  have hstep := step_floorStep (empty.run calls) call mesh hr
  rw [← hrun] at hstep
  cases hstep with
  | quiet hn hd hh hs => exact hi.quiet hn hd hh hs
  | moved h h' hn hd hh hh' hp hs hv =>
    refine hi.kept hn hd (fun p d k hst hk hkp hkd => ?_) fun f k hf hk hlt => ?_
    · rw [hh] at hk
      cases hk
      exact ⟨h', hh', hp.trans hkp, by omega⟩
    · rw [hh'] at hk
      cases hk
      have hsome := hi.behind f h hf hh (by omega)
      simp [hs] at hsome
  | adopted source version h' ha hn hd hh' hp hv =>
    refine hi.kept hn hd (fun p d k hst hk hkp hkd => ?_) fun f k hf hk hlt => ?_
    · obtain ⟨hps, hdv⟩ := hc.image mesh source version ha p d hst
      exact ⟨h', hh', hp.trans hps.symm, by omega⟩
    · rw [hh'] at hk
      cases hk
      obtain ⟨p, hst⟩ := hi.stored f hf
      have hdv := (hc.image mesh source version ha p f hst).2
      omega
  | installed c h' hcc hm hh' hp hv hd hs hu =>
    subst hm
    have hn := DropsAt.not_chunk (empty.run calls) hcc c.mesh
    have hown : ∀ p d, Stored calls c.mesh p d → p = h'.publisher :=
      fun p d hst => (hc.chunk c hcc p d hst).trans hp.symm
    cases hf : (empty.run (calls ++ [call])).dropped[c.mesh]? with
    | none => exact hi.cleared hn hh' hown (hd ▸ hf) hf
    | some f =>
      have hsame : (empty.run (calls ++ [call])).dropped[c.mesh]? = (empty.run calls).dropped[c.mesh]? := by
        rw [hd, Option.filter_eq_some_iff] at hf
        rw [hd, hf.1, Option.filter_some, if_pos hf.2]
      refine hi.kept hn hsame (fun p d k hst hk hkp hkd => ?_) fun f' k hf' hk hlt => ?_
      · obtain rfl := hown p d hst
        have hle := hv k hk (hkp.trans hp)
        exact ⟨h', hh', rfl, by omega⟩
      · rw [hh'] at hk
        cases hk
        rw [hs, hf]
        rfl
  | dropped source version hn hd hh hs => exact hi.dropped hn hd hh hs

theorem FloorInv.run {calls : List Call}
    (h : ∀ before call after, calls = before ++ call :: after →
      KeepsFloor before call ∧ call.isRemove = false) (mesh : String) : FloorInv calls mesh := by
  induction calls using List.reverseRecOn with
  | nil => exact FloorInv.nil mesh
  | append_singleton calls call ih =>
    obtain ⟨hc, hr⟩ := h calls call [] rfl
    refine FloorInv.step (ih fun before x after he => ?_) hc hr
    exact h before x (after ++ [call]) (by rw [he]; simp)

/-- An installed snapshot is the held copy of its mesh, behind only a floor above it. -/
structure InstalledAs (ry : SnapshotReceiver) (c : Chunk) (i : Install) : Prop where
  mesh : c.mesh = i.mesh
  publisher : c.publisher = i.publisher
  held : ∃ h, ry.held[i.mesh]? = some h ∧ h.version = i.topologyVersion ∧
    (h.desynced.isSome = true → ∃ f, ry.dropped[i.mesh]? = some f ∧ h.version < f)
  based : i.mesh ∉ ry.unbased

theorem chunk_installedAs {rx : SnapshotReceiver} {c : Chunk} {fromRead : Bool}
    {installed : Option InstalledProjection} {owner : Option Birth} {i : Install}
    (h : (rx.chunk c fromRead installed owner).2 = .installed i) :
    InstalledAs (rx.chunk c fromRead installed owner).1 c i := by
  generalize hout : rx.chunk c fromRead installed owner = out at h
  have hstep := chunk_step rx c fromRead installed owner
  rw [hout] at hstep
  cases hstep with
  | refused => simp at h
  | waiting => simp at h
  | conflicting => simp at h
  | installed =>
    have hi := Taken.installed.inj h
    subst hi
    refine ⟨rfl, rfl, ⟨_, by simp only [install, getElem?_insert_eq, if_true]; rfl, rfl, ?_⟩, ?_⟩
    · intro hs
      obtain ⟨f, hf⟩ := Option.isSome_iff_exists.mp (Option.isSome_map ▸ hs)
      have hgt := (Option.filter_eq_some_iff.mp hf).2
      refine ⟨f, (install_dropped _ _ _ _ _ _).trans hf, by simpa using hgt⟩
    · simp [install]

theorem step_installedAs {rx : SnapshotReceiver} {call : Call} {i : Install}
    (h : (rx.step call).2 = .taken (.installed i)) :
    ∃ c, call.chunkOf = some c ∧ InstalledAs (rx.step call).1 c i := by
  cases call with
  | takeChunk c => exact ⟨c, rfl, chunk_installedAs (Answer.taken.inj h)⟩
  | takeReadChunk c => exact ⟨c, rfl, chunk_installedAs (Answer.taken.inj h)⟩
  | takeChunkAgainst c fromRead installed => exact ⟨c, rfl, chunk_installedAs (Answer.taken.inj h)⟩
  | takeAuthoredChunk c owner installed => exact ⟨c, rfl, chunk_installedAs (Answer.taken.inj h)⟩
  | takeDelta => simp [step] at h
  | takeDeltaAgainst => simp [step] at h
  | markDesynced => simp [step] at h
  | remove => simp [step] at h

/-- A held copy behind a dropped delta of its publisher is desynchronized, and installing a copy
leaves it so for such a delta alone. -/
def FloorHolds (calls : List Call) : Prop :=
  (∀ mesh h d, (empty.run calls).held[mesh]? = some h → h.version < d →
    Unreached calls mesh h.publisher d → ∃ g, (mesh, g) ∈ (empty.run calls).desynced) ∧
  ∀ before call i, calls = before ++ [call] →
    ((empty.run before).step call).2 = .taken (.installed i) →
    (∃ g, (i.mesh, g) ∈ (empty.run calls).desynced) →
    ∃ d, i.topologyVersion < d ∧ Unreached calls i.mesh i.publisher d

theorem dropped_floor {calls : List Call}
    (h : ∀ before call after, calls = before ++ call :: after →
      KeepsFloor before call ∧ call.isRemove = false) : FloorHolds calls := by
  refine ⟨fun mesh k d hk hlt hu => ?_, ?_⟩
  · have hinv := FloorInv.run h mesh
    obtain ⟨f, hf, hdf⟩ := hinv.bound _ d (hinv.unreached _ d hu)
    exact (mem_desynced_iff _ mesh).mpr (Or.inl ⟨k, hk, hinv.behind f k hf hk (by omega)⟩)
  · rintro before call i rfl hanswer hdesynced
    have hinv := FloorInv.run h i.mesh
    have hrun : empty.run (before ++ [call]) = ((empty.run before).step call).1 := run_concat _ _ _
    obtain ⟨c, hc, has⟩ := step_installedAs hanswer
    rw [← hrun] at has
    obtain ⟨k, hk, hver, hbehind⟩ := has.held
    have hsome : k.desynced.isSome = true := by
      rcases (mem_desynced_iff _ _).mp hdesynced with ⟨x, hx, hs⟩ | hu
      · rw [hk] at hx
        cases hx
        exact hs
      · exact absurd hu has.based
    obtain ⟨f, hf, hlt⟩ := hbehind hsome
    obtain ⟨p, hp⟩ := hinv.stored f hf
    have hown : p = i.publisher := by
      rcases ((droppedSince_concat _ _).mp hp).1 with hdrop | hst
      · exact absurd hdrop (DropsAt.not_chunk _ hc _ _ _)
      · rw [← has.mesh] at hst
        exact ((h before call [] rfl).1.chunk c hc p f hst).trans has.publisher
    subst hown
    rcases hinv.reached _ f hp with hu | ⟨x, hx, _, hxf⟩
    · exact ⟨f, by omega, hu⟩
    · rw [hk] at hx
      cases hx
      omega

theorem DroppedSince.mem {keep : SnapshotReceiver → Prop} {mesh : String} {publisher : PublisherId}
    {version : Nat} {calls : List Call} (h : DroppedSince keep mesh publisher version calls) :
    ∃ call ∈ calls, call.deltaOf = some (mesh, publisher, version) := by
  induction h with
  | @drop calls call h _ => exact ⟨call, by simp, h.1⟩
  | @later calls call _ _ ih =>
    obtain ⟨x, hx, hd⟩ := ih
    exact ⟨x, List.mem_append_left _ hx, hd⟩

/-- A source of one publisher keeps its floors. -/
theorem keepsFloor_of_one {P : PublisherId} {calls : List Call}
    (h : ∀ call ∈ calls, call.Of P) (before : List Call) (call : Call) (after : List Call)
    (he : calls = before ++ call :: after) : KeepsFloor before call ∧ call.isRemove = false := by
  have hcall : call.Of P := h call (by simp [he])
  have hsource : ∀ mesh p d, Stored before mesh p d → p = P := by
    intro mesh p d hst
    obtain ⟨x, hx, hd⟩ := hst.mem
    have hof := h x (by simp [he, hx])
    cases x <;> simp_all [Call.deltaOf, Call.Of]
  refine ⟨⟨fun c hc p d hst => ?_, fun mesh source version ha => ?_⟩, ?_⟩
  · rw [hsource c.mesh p d hst]
    cases call <;> simp_all [Call.chunkOf, Call.Of]
  · obtain ⟨base, next, delta, i, rfl, _⟩ := ha
    exact absurd hcall id
  · cases call <;> simp_all [Call.isRemove, Call.Of]

/-- A gap, a delta dropped behind it, and a read older than that delta. -/
theorem dropped_floor_read :
    FloorHolds [.takeChunk (emptyChunk alice 7 7), .takeDelta "mesh1" alice 8 9 ⟨[], [], [], []⟩,
      .takeDelta "mesh1" alice 9 10 ⟨[], [], [], []⟩, .takeReadChunk (emptyChunk alice 9 9)] := by
  refine dropped_floor (keepsFloor_of_one (P := alice) ?_)
  simp [Call.Of, emptyChunk]

def bob : PublisherId := ⟨"i2", "n2"⟩

/-- A source marked, then a delta of another publisher dropped at it. -/
def foreignDrop : List Call :=
  [.takeChunk (emptyChunk alice 1 1), .markDesynced "mesh1" .stoppedBirthHeard,
    .takeDelta "mesh1" bob 99 100 ⟨[], [], [], []⟩]

theorem foreignDrop_of_alice {mesh : String} {d : Nat} :
    ¬ Unreached (foreignDrop ++ [.takeReadChunk (emptyChunk alice 2 2)]) mesh alice d := by
  intro hu
  obtain ⟨x, hx, hd⟩ := hu.mem
  simp only [foreignDrop, List.mem_append, List.mem_cons, List.not_mem_nil, or_false] at hx
  rcases hx with (rfl | rfl | rfl) | rfl <;> simp [Call.deltaOf, bob, alice] at hd

/-- A delta of one publisher, dropped, keeps the copy of another desynchronized. -/
theorem foreign_floor_fails :
    ¬ FloorHolds (foreignDrop ++ [.takeReadChunk (emptyChunk alice 2 2)]) := by
  intro h
  have hmap : (((empty.run foreignDrop).step (.takeReadChunk (emptyChunk alice 2 2))).2.install.map
      fun i => (i.mesh, i.publisher)) = some ("mesh1", alice) := by
    decide +kernel
  have hdesynced : ("mesh1", Gap.version 2 100) ∈
      (empty.run (foreignDrop ++ [.takeReadChunk (emptyChunk alice 2 2)])).desynced := by
    decide +kernel
  obtain ⟨i, hi, he⟩ := Option.map_eq_some_iff.mp hmap
  obtain ⟨hm, hp⟩ := Prod.mk.inj he
  have hanswer := Answer.install_eq_some hi
  rw [← hm] at hdesynced
  obtain ⟨d, _, hu⟩ := h.2 foreignDrop _ i rfl hanswer ⟨_, hdesynced⟩
  rw [hp] at hu
  exact foreignDrop_of_alice hu

end SnapshotReceiver

end DistributedMesh
