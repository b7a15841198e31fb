import DistributedMesh.TopologyCalls

namespace DistributedMesh

open Std (ExtTreeMap)
open KeyedMaps

/-- The answers that say nothing was taken into the held copy. -/
def Answer.Leaves : Answer → Prop
  | .taken (.refused _) | .taken (.waiting _ _) => True
  | .moved .stale | .moved .inconsistent | .moved (.duplicate _) | .moved (.desynced _ _) => True
  | _ => False

namespace SnapshotReceiver

theorem heldBy_eq_some (rx : SnapshotReceiver) (mesh : String) (publisher : PublisherId) (h : Held) :
    rx.heldBy mesh publisher = some h ↔ rx.held[mesh]? = some h ∧ h.publisher = publisher := by
  simp [heldBy, Option.filter_eq_some_iff]

theorem assembly_version (rx : SnapshotReceiver) (key : SourceKey) (c : Chunk) :
    (rx.assembly key c).version = c.topologyVersion ∧ (rx.assembly key c).snapshotId = c.snapshotId := by
  unfold assembly
  split
  next p _ =>
    by_cases hs : p.same c
    · rw [if_pos hs]
      exact hs
    · rw [if_neg hs]
      exact ⟨rfl, rfl⟩
  next => exact ⟨rfl, rfl⟩

theorem Joins.not_older {rx : SnapshotReceiver} {c : Chunk} {fromRead : Bool} {owner : Option Birth}
    {h : Held} (hj : rx.Joins c fromRead owner) (hh : rx.held[c.mesh]? = some h)
    (hp : h.publisher = c.publisher) : h.version ≤ c.topologyVersion := by
  have hheld := hj.held
  have hby := (heldBy_eq_some rx c.mesh c.publisher h).mpr ⟨hh, hp⟩
  rw [againstHeld, hby] at hheld
  by_contra hlt
  simp [Nat.lt_of_not_le hlt] at hheld

theorem againstComplete_same {rx : SnapshotReceiver} {c : Chunk} {full : Full} {fromRead : Bool}
    {installed : Option InstalledProjection} {h : Held}
    (hr : rx.againstComplete c full fromRead installed = none) (hh : rx.held[c.mesh]? = some h)
    (hp : h.publisher = c.publisher) (hv : h.version = c.topologyVersion) :
    h.full.sameTopology full = true := by
  have hby := (heldBy_eq_some rx c.mesh c.publisher h).mpr ⟨hh, hp⟩
  rw [againstComplete, hby] at hr
  by_contra hne
  have hdiff : h.full.sameTopology full = false := Bool.eq_false_iff.mpr hne
  simp [hv, hdiff] at hr

/-- Of one publisher, a mesh's held version does not decrease and at one version its full stays
the same topology. -/
def Floor (a b : Option Held) : Prop :=
  ∀ h h', a = some h → b = some h' → h.publisher = h'.publisher →
    h.version ≤ h'.version ∧ (h.version = h'.version → h.full.sameTopology h'.full = true)

theorem Floor.refl (a : Option Held) : Floor a a := by
  intro h h' hh hh' _
  rw [hh] at hh'
  cases hh'
  exact ⟨Nat.le_refl _, fun _ => h.full.sameTopology_refl⟩

theorem Floor.trans {a b c : Option Held} {k : Held} (hab : Floor a b) (hbc : Floor b c)
    (hb : b = some k) (hk : ∀ h, a = some h → h.publisher = k.publisher) : Floor a c := by
  intro h h' hh hh' hp
  have hhk := hk h hh
  obtain ⟨hv, hf⟩ := hab h k hh hb hhk
  obtain ⟨hv', hf'⟩ := hbc k h' hb hh' (hhk.symm.trans hp)
  refine ⟨Nat.le_trans hv hv', fun he => ?_⟩
  exact Full.sameTopology_trans (hf (by omega)) (hf' (by omega))

theorem Floor.insert {m : ExtTreeMap String Held} {mesh : String} {k : Held}
    (h : Floor m[mesh]? (some k)) (mesh' : String) : Floor m[mesh']? (m.insert mesh k)[mesh']? := by
  rw [getElem?_insert_eq]
  by_cases he : mesh = mesh'
  · subst he
    rw [if_pos rfl]
    exact h
  · rw [if_neg he]
    exact Floor.refl _

theorem chunk_floor (rx : SnapshotReceiver) (c : Chunk) (fromRead : Bool)
    (installed : Option InstalledProjection) (owner : Option Birth) (mesh : String) :
    Floor rx.held[mesh]? (rx.chunk c fromRead installed owner).1.held[mesh]? := by
  generalize hout : rx.chunk c fromRead installed owner = out
  have hstep := chunk_step rx c fromRead installed owner
  rw [hout] at hstep
  cases hstep with
  | refused => exact Floor.refl _
  | waiting => exact Floor.refl _
  | conflicting => exact Floor.refl _
  | installed hj _ hr =>
    refine Floor.insert ?_ mesh
    intro h h' hh hh' hp
    cases hh'
    have hv : h.version ≤ c.topologyVersion := hj.not_older hh hp
    have hver : (rx.joined c fromRead owner).version = c.topologyVersion := (assembly_version _ _ _).1
    refine ⟨hver ▸ hv, fun he => ?_⟩
    exact againstComplete_same hr hh hp (he.trans hver)

theorem delta_floor (rx : SnapshotReceiver) (mesh : String) (source : PublisherId)
    (base version : Nat) (delta : Delta) (mesh' : String) :
    Floor rx.held[mesh']? (rx.takeDelta mesh source base version delta).1.held[mesh']? := by
  generalize hout : rx.takeDelta mesh source base version delta = out
  have hstep := delta_step rx mesh source base version delta
  rw [hout] at hstep
  cases hstep with
  | unbased => exact Floor.refl _
  | dropped => exact Floor.refl _
  | gap h g hh =>
    refine Floor.insert ?_ mesh'
    rw [hh]
    intro k k' hk hk' _
    cases hk
    cases hk'
    exact ⟨Nat.le_refl _, fun _ => h.full.sameTopology_refl⟩
  | kept => exact Floor.refl _
  | applied h hh _ hv =>
    refine Floor.insert ?_ mesh'
    rw [hh]
    intro k k' hk hk' _
    cases hk
    cases hk'
    exact ⟨Nat.le_of_lt hv, fun he => absurd he (Nat.ne_of_lt hv)⟩

/-- What adopting an image does: nothing, or the image is the mesh's held copy, in the place of
none of its publisher or of an older one. -/
theorem adopt_cases (rx : SnapshotReceiver) (mesh : String) (source : PublisherId)
    (installed : Option InstalledProjection) : rx.adopt mesh source installed = rx ∨
      ∃ i, installed = some i ∧ i.publisher = source ∧
        (∀ h, rx.held[mesh]? = some h → h.publisher = source → h.version < i.version) ∧
        rx.adopt mesh source installed =
          { rx with held := rx.held.insert mesh ⟨source, i.version, i.full, none, none, none⟩ } := by
  cases installed with
  | none => exact Or.inl rfl
  | some i =>
    by_cases hp : i.publisher = source
    · subst hp
      by_cases hold : (rx.held[mesh]?.all fun h => h.publisher ≠ i.publisher ∨ h.version < i.version) = true
      · refine Or.inr ⟨i, rfl, rfl, fun h hh hpub => ?_, by simp only [adopt, Option.filter_some, decide_true, if_true, hold]⟩
        rw [hh] at hold
        simpa [hpub] using hold
      · refine Or.inl ?_
        simp only [adopt, Option.filter_some, decide_true, if_true, hold]
        rfl
    · refine Or.inl ?_
      simp only [adopt, Option.filter_some, hp, decide_false, Bool.false_eq_true, if_false]

theorem adopt_floor (rx : SnapshotReceiver) (mesh : String) (source : PublisherId)
    (installed : Option InstalledProjection) (mesh' : String) :
    Floor rx.held[mesh']? (rx.adopt mesh source installed).held[mesh']? := by
  rcases adopt_cases rx mesh source installed with hsame | ⟨i, _, _, hold, hnew⟩
  · rw [hsame]
    exact Floor.refl _
  · rw [hnew]
    refine Floor.insert ?_ mesh'
    intro h h' hh hh' hp
    cases hh'
    have hlt := hold h hh hp
    exact ⟨Nat.le_of_lt hlt, fun he => absurd he (Nat.ne_of_lt hlt)⟩

/-- The copy a call is judged against. -/
def judged (rx : SnapshotReceiver) : Call → SnapshotReceiver
  | .takeDeltaAgainst mesh source _ _ _ installed => rx.adopt mesh source installed
  | _ => rx

/-- A delta leaves each mesh its held publisher. -/
theorem delta_publisher (rx : SnapshotReceiver) (mesh : String) (source : PublisherId)
    (base version : Nat) (delta : Delta) (mesh' : String) :
    (rx.takeDelta mesh source base version delta).1.held[mesh']?.map Held.publisher =
      rx.held[mesh']?.map Held.publisher := by
  have hinsert : ∀ h h' : Held, rx.held[mesh]? = some h → h'.publisher = h.publisher →
      (rx.held.insert mesh h')[mesh']?.map Held.publisher = rx.held[mesh']?.map Held.publisher := by
    intro h h' hh hp
    rw [getElem?_insert_eq]
    by_cases he : mesh = mesh'
    · subst he
      rw [if_pos rfl, hh]
      exact congrArg some hp
    · rw [if_neg he]
  generalize hout : rx.takeDelta mesh source base version delta = out
  have hstep := delta_step rx mesh source base version delta
  rw [hout] at hstep
  cases hstep with
  | unbased => rfl
  | dropped => rfl
  | gap h g hh => exact hinsert h _ hh rfl
  | kept => rfl
  | applied h hh => exact hinsert h _ hh rfl

theorem mark_floor (rx : SnapshotReceiver) (mesh : String) (gap : Gap) (mesh' : String) :
    Floor rx.held[mesh']? (rx.markDesynced mesh gap).1.held[mesh']? := by
  unfold markDesynced
  cases hh : rx.held[mesh]? with
  | none => exact Floor.refl _
  | some h =>
    by_cases hd : h.desynced.isNone = true
    · simp only [hd, if_true]
      refine Floor.insert ?_ mesh'
      rw [hh]
      intro k k' hk hk' _
      cases hk
      cases hk'
      exact ⟨Nat.le_refl _, fun _ => h.full.sameTopology_refl⟩
    · simp only [hd]
      exact Floor.refl _

theorem step_floor (rx : SnapshotReceiver) (call : Call) (mesh : String) :
    Floor rx.held[mesh]? (rx.step call).1.held[mesh]? := by
  cases call with
  | takeChunk c => exact rx.chunk_floor c false none none mesh
  | takeReadChunk c => exact rx.chunk_floor c true none none mesh
  | takeChunkAgainst c fromRead installed => exact rx.chunk_floor c fromRead installed none mesh
  | takeAuthoredChunk c owner installed => exact rx.chunk_floor c false installed owner mesh
  | takeDelta mesh' source base version delta => exact rx.delta_floor mesh' source base version delta mesh
  | takeDeltaAgainst mesh' source base version delta installed =>
    have hpub := (rx.adopt mesh' source installed).delta_publisher mesh' source base version delta mesh
    have hadopt := rx.adopt_floor mesh' source installed mesh
    have hdelta := (rx.adopt mesh' source installed).delta_floor mesh' source base version delta mesh
    intro h h' hh hh' hp
    have hh' : ((rx.adopt mesh' source installed).takeDelta mesh' source base version delta).1.held[mesh]? =
      some h' := hh'
    rw [hh'] at hpub
    obtain ⟨k, hk, hkp⟩ := Option.map_eq_some_iff.mp hpub.symm
    refine Floor.trans hadopt hdelta hk (fun x hx => ?_) h h' hh hh' hp
    rw [hh] at hx
    cases hx
    exact hp.trans hkp.symm
  | markDesynced mesh' gap => exact rx.mark_floor mesh' gap mesh
  | remove mesh' =>
    intro h h' hh hh' _
    change (rx.held.erase mesh')[mesh]? = some h' at hh'
    rw [getElem?_erase_eq] at hh'
    split at hh'
    next => simp at hh'
    next =>
      rw [hh] at hh'
      cases hh'
      exact ⟨Nat.le_refl _, fun _ => h.full.sameTopology_refl⟩

/-- The floor over a run in which the mesh's held publisher does not change. -/
theorem run_floor {rx : SnapshotReceiver} {mesh : String} {P : PublisherId} {calls : List Call}
    (h : ∀ k ≤ calls.length, (rx.run (calls.take k)).held[mesh]?.map Held.publisher = some P) :
    Floor rx.held[mesh]? (rx.run calls).held[mesh]? := by
  induction calls generalizing rx with
  | nil => exact Floor.refl _
  | cons call calls ih =>
    have hfirst := rx.step_floor call mesh
    have hrest : Floor _ ((rx.step call).1.run calls).held[mesh]? :=
      ih fun k hk => h (k + 1) (by simpa using hk)
    have hpub : (rx.step call).1.held[mesh]?.map Held.publisher = some P := h 1 (by simp)
    obtain ⟨k, hk, hkp⟩ := Option.map_eq_some_iff.mp hpub
    refine Floor.trans hfirst hrest hk fun x hx => ?_
    have hx0 : rx.held[mesh]?.map Held.publisher = some P := h 0 (by simp)
    rw [hx] at hx0
    rw [hkp]
    exact Option.some.inj hx0

/-- The held version and full of every mesh are the same. -/
def SameCopies (rx ry : SnapshotReceiver) : Prop :=
  ∀ mesh, ry.heldVersion mesh = rx.heldVersion mesh ∧ ry.heldFull mesh = rx.heldFull mesh

theorem SameCopies.of_held {rx ry : SnapshotReceiver} (h : ry.held = rx.held) : SameCopies rx ry := by
  intro mesh
  rw [heldVersion, heldVersion, heldFull, heldFull, h]
  exact ⟨rfl, rfl⟩

theorem chunk_leaves {rx : SnapshotReceiver} {c : Chunk} {fromRead : Bool}
    {installed : Option InstalledProjection} {owner : Option Birth}
    (h : Answer.Leaves (.taken (rx.chunk c fromRead installed owner).2)) :
    SameCopies rx (rx.chunk c fromRead installed owner).1 := by
  generalize hout : rx.chunk c fromRead installed owner = out at h
  have hstep := chunk_step rx c fromRead installed owner
  rw [hout] at hstep
  cases hstep with
  | refused => exact SameCopies.of_held rfl
  | waiting => exact SameCopies.of_held rfl
  | conflicting => exact SameCopies.of_held rfl
  | installed => exact absurd h id

theorem delta_leaves {rx : SnapshotReceiver} {mesh : String} {source : PublisherId}
    {base version : Nat} {delta : Delta}
    (h : Answer.Leaves (.moved (rx.takeDelta mesh source base version delta).2)) :
    SameCopies rx (rx.takeDelta mesh source base version delta).1 := by
  generalize hout : rx.takeDelta mesh source base version delta = out at h
  have hstep := delta_step rx mesh source base version delta
  rw [hout] at hstep
  cases hstep with
  | unbased => exact SameCopies.of_held rfl
  | dropped => exact SameCopies.of_held rfl
  | gap k g hk =>
    intro mesh'
    simp only [heldVersion, heldFull, getElem?_insert_eq]
    by_cases he : mesh = mesh'
    · subst he
      rw [if_pos rfl, hk]
      exact ⟨rfl, rfl⟩
    · rw [if_neg he]
      exact ⟨rfl, rfl⟩
  | kept => exact SameCopies.of_held rfl
  | applied => exact absurd h id

/-- A call that takes nothing in leaves every copy as it was judged against. -/
theorem step_leaves {rx : SnapshotReceiver} {call : Call} (h : Answer.Leaves (rx.step call).2) :
    SameCopies (rx.judged call) (rx.step call).1 := by
  cases call with
  | takeChunk c => exact chunk_leaves h
  | takeReadChunk c => exact chunk_leaves h
  | takeChunkAgainst c fromRead installed => exact chunk_leaves h
  | takeAuthoredChunk c owner installed => exact chunk_leaves h
  | takeDelta mesh source base version delta => exact delta_leaves h
  | takeDeltaAgainst mesh source base version delta installed => exact delta_leaves h
  | markDesynced mesh gap => exact absurd h id
  | remove mesh => exact absurd h id

/-- A delta moves the held version of its own mesh alone, from its base, at its own source. -/
def MovesAtBase (rx ry : SnapshotReceiver) (mesh : String) (source : PublisherId)
    (base version : Nat) : Prop :=
  ∀ mesh', ry.heldVersion mesh' ≠ rx.heldVersion mesh' →
    mesh' = mesh ∧ rx.heldVersion mesh = some (source, base) ∧ ry.heldVersion mesh = some (source, version)

theorem delta_movesAtBase (rx : SnapshotReceiver) (mesh : String) (source : PublisherId)
    (base version : Nat) (delta : Delta) :
    MovesAtBase rx (rx.takeDelta mesh source base version delta).1 mesh source base version := by
  intro mesh' hne
  generalize hout : rx.takeDelta mesh source base version delta = out at hne ⊢
  have hstep := delta_step rx mesh source base version delta
  rw [hout] at hstep
  cases hstep with
  | unbased => exact absurd rfl hne
  | dropped => exact absurd rfl hne
  | gap h g hh =>
    refine absurd ?_ hne
    simp only [heldVersion, getElem?_insert_eq]
    by_cases he : mesh = mesh'
    · subst he
      rw [if_pos rfl, hh]
      rfl
    · rw [if_neg he]
  | kept => exact absurd rfl hne
  | applied h hh hp hv hd hb =>
    by_cases he : mesh = mesh'
    · subst he
      simp only [heldVersion, getElem?_insert_eq, hh, if_true, Option.map_some, Held.move, hp, hb, and_self]
    · refine absurd ?_ hne
      simp only [heldVersion, getElem?_insert_eq, if_neg he]

/-- The material floor of a source, over every run from an empty receiver. -/
theorem material_floor (calls : List Call) :
    (∀ (later : List Call) (mesh : String) (publisher : PublisherId),
      (∀ k ≤ later.length,
        (empty.run (calls ++ later.take k)).held[mesh]?.map Held.publisher = some publisher) →
      Floor (empty.run calls).held[mesh]? (empty.run (calls ++ later)).held[mesh]?) ∧
    ∀ call, (Answer.Leaves ((empty.run calls).step call).2 →
        SameCopies ((empty.run calls).judged call) ((empty.run calls).step call).1) ∧
      (∀ mesh source base version delta, (call = .takeDelta mesh source base version delta ∨
          ∃ installed, call = .takeDeltaAgainst mesh source base version delta installed) →
        MovesAtBase ((empty.run calls).judged call) ((empty.run calls).step call).1 mesh source
          base version) ∧
      ∀ mesh, ((empty.run calls).judged call).held[mesh]? = (empty.run calls).held[mesh]? ∨
        ∃ source base version delta i,
          call = .takeDeltaAgainst mesh source base version delta (some i) ∧ i.publisher = source ∧
          ((empty.run calls).judged call).heldVersion mesh = some (source, i.version) ∧
          ((empty.run calls).judged call).heldFull mesh = some i.full ∧
          ∀ h, (empty.run calls).held[mesh]? = some h → h.publisher = source → h.version < i.version := by
  refine ⟨fun later mesh publisher h => ?_, fun call => ⟨step_leaves, ?_, fun mesh => ?_⟩⟩
  · rw [run_append]
    refine run_floor (P := publisher) fun k hk => ?_
    rw [← run_append]
    exact h k hk
  · rintro mesh source base version delta (rfl | ⟨installed, rfl⟩)
    · exact delta_movesAtBase _ mesh source base version delta
    · exact delta_movesAtBase _ mesh source base version delta
  · cases call with
    | takeDeltaAgainst mesh' source base version delta installed =>
      rcases adopt_cases (empty.run calls) mesh' source installed with hsame | ⟨i, hi, hp, hold, hnew⟩
      · exact Or.inl (by rw [judged, hsame])
      · by_cases he : mesh' = mesh
        · subst he
          refine Or.inr ⟨source, base, version, delta, i, by rw [hi], hp, ?_, ?_, hold⟩
          · simp only [heldVersion, judged, hnew, getElem?_insert_eq, if_true, Option.map_some]
          · simp only [heldFull, judged, hnew, getElem?_insert_eq, if_true, Option.map_some]
        · refine Or.inl ?_
          rw [judged, hnew, getElem?_insert_eq, if_neg he]
    | _ => exact Or.inl rfl

def alice : PublisherId := ⟨"i1", "n1"⟩

/-- The one chunk of an empty mesh's snapshot. -/
def emptyChunk (publisher : PublisherId) (version snapshotId : Nat) : Chunk :=
  ⟨"mesh1", publisher, none, version, snapshotId, 0, 1, ⟨[], [], []⟩⟩

/-- A delta answered as a duplicate moves the held version to the image's. -/
theorem duplicate_delta_moves_held_version :
    let rx := (empty.takeChunk (emptyChunk alice 1 1)).1
    let image : InstalledProjection := ⟨alice, 2, Full.new [] [] [], some 2⟩
    let answer := rx.takeDeltaAgainst "mesh1" alice 1 2 ⟨[], [], [], []⟩ (some image)
    answer.2 = .duplicate 2 ∧ rx.heldVersion "mesh1" = some (alice, 1) ∧
      answer.1.heldVersion "mesh1" = some (alice, 2) := by
  decide +kernel

end SnapshotReceiver

end DistributedMesh
