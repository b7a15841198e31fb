import DistributedMesh.GuardedRuns
import DistributedMesh.StorageBlocks

namespace DistributedMesh.Storage

open GuardedRuns

def Birth.Unfrozen (changeId : String) (b : Birth) : Prop := ¬ b.moves.FrozenBy changeId

/-- The birth holds neither its commands nor its rows. -/
def Birth.Open (b : Birth) : Prop := b.blocked = false ∧ b.rowsHeld = false

/-- The birth is blocked in nothing it was not. -/
structure Birth.Calmer (changeId : String) (a b : Birth) : Prop where
  frozen : a.Unfrozen changeId → b.Unfrozen changeId
  blocked : a.blocked = false → b.blocked = false
  rows : a.rowsHeld = false → b.rowsHeld = false

theorem Birth.Calmer.stays_open {changeId : String} {a b : Birth} (h : a.Calmer changeId b) (ha : a.Open) : b.Open :=
  ⟨h.blocked ha.1, h.rows ha.2⟩

namespace MeshRun

/-- The exact birth takes a freeze of the change: it is not frozen, acted on nothing of the change, and writes properties. -/
def TakesFreeze (changeId : String) (s : MeshRun) (subject : Subject) : Prop :=
  ∃ b, s.births[subject.1]? = some b ∧ b.generation = subject.2 ∧ b.moves.blocked = none ∧ ¬ b.moves.HasActed changeId ∧
    b.moves.properties = true

/-- No `serve_unblock` of the change has moved its own birth. -/
def Unopened (s : MeshRun) : Prop := ∀ u ∈ s.unblocks, u.2.opened = false

/-- The mesh-primary is at the location, or it holds nothing. -/
def Covered (s : MeshRun) (location : Nat) : Prop := s.lead = location ∨ ∀ b, s.primary = some b → b.Open

/-- Once a `serve_unblock` has moved its own birth, a `serve_block` freezes no birth that takes it and marks nothing, and the
mesh-primary is the birth that serves it or holds nothing; and no birth that is frozen is missing from the view it goes by. -/
def Undisturbed (changeId : String) (s : MeshRun) : MeshMove → Prop
  | .block (.freezes k) =>
    ∀ me subject rest, s.blocks[k]? = some (me, .freezing (subject :: rest)) → s.TakesFreeze changeId subject → s.Unopened
  | .block (.lateFreeze j) => ∀ subject, s.late[j]? = some subject → s.TakesFreeze changeId subject → s.Unopened
  | .block (.marks _) => s.Unopened
  | .unblock (.movesOwn k _) => ∀ me provider, s.unblocks[k]? = some (me, .read provider) → s.Covered me.1
  | .unblock (.releasesRows _ view) => ∀ location b, s.births[location]? = some b → location ∉ view → b.Unfrozen changeId
  | .elected location => ∀ u ∈ s.unblocks, u.2.opened = true → ({ s with lead := location } : MeshRun).Covered u.1.1
  | _ => True

/-- Nothing of the mesh is blocked by the change. -/
def Released (changeId : String) (s : MeshRun) : Prop :=
  (∀ b ∈ s.births, b.Unfrozen changeId) ∧ ∀ b, s.primary = some b → b.Open

/-- What a `serve_unblock` has released at its stage. -/
def Past (changeId : String) (s : MeshRun) (me : Subject) : UnblockServe → Prop
  | .ownMoved _ => ∀ b, s.births[me.1]? = some b → b.Unfrozen changeId
  | .moving _ left => ∀ location b, s.births[location]? = some b → location ∉ left → b.Unfrozen changeId
  | .rowsReleased _ => (∀ b ∈ s.births, b.Unfrozen changeId) ∧ ∀ b, s.births[me.1]? = some b → b.rowsHeld = false
  | .unblocked _ => (∀ b ∈ s.births, b.Unfrozen changeId) ∧ ∀ b, s.births[me.1]? = some b → b.Open
  | _ => True

/-- Each `serve_unblock` has released what it passed, and a birth that acted on the change is not frozen by it. -/
structure Sound (changeId : String) (s : MeshRun) : Prop where
  past : ∀ u ∈ s.unblocks, s.Past changeId u.1 u.2
  covered : ∀ u ∈ s.unblocks, u.2.opened = true → s.Covered u.1.1
  acted : ∀ b ∈ s.births, b.moves.HasActed changeId → b.Unfrozen changeId

/-- A step that freezes nothing and marks nothing, the role as it was. -/
structure Calmer (changeId : String) (s t : MeshRun) : Prop where
  lead : t.lead = s.lead
  births : ∀ (location : Nat) (b : Birth), t.births[location]? = some b →
    ∃ a : Birth, s.births[location]? = some a ∧ a.Calmer changeId b

variable {changeId : String} {s t : MeshRun}

theorem Calmer.of_births (hlead : t.lead = s.lead) (h : t.births = s.births) : Calmer changeId s t :=
  ⟨hlead, fun _ b hb => ⟨b, h ▸ hb, id, id, id⟩⟩

theorem Calmer.of_set {location : Nat} {a b : Birth} (ha : s.births[location]? = some a) (hlead : t.lead = s.lead)
    (ht : t.births = s.births.set location b) (hab : a.Calmer changeId b) : Calmer changeId s t := by
  refine ⟨hlead, fun l c hc => ?_⟩
  rw [ht] at hc
  obtain ⟨rfl, rfl⟩ | ⟨_, hc⟩ := getElem?_of_set hc
  · exact ⟨a, ha, hab⟩
  · exact ⟨c, hc, id, id, id⟩

theorem Calmer.unfrozen (h : Calmer changeId s t) (hall : ∀ b ∈ s.births, b.Unfrozen changeId) :
    ∀ b ∈ t.births, b.Unfrozen changeId := by
  intro b hb
  obtain ⟨location, hlocation⟩ := List.mem_iff_getElem?.mp hb
  obtain ⟨a, ha, hab⟩ := h.births location b hlocation
  exact hab.frozen (hall a (List.mem_of_getElem? ha))

theorem Covered.calmer {location : Nat} (h : s.Covered location) (hcalm : Calmer changeId s t) : t.Covered location := by
  rcases h with hlead | hopen
  · exact .inl (hcalm.lead.trans hlead)
  · refine .inr fun b hb => ?_
    unfold primary at hb
    rw [hcalm.lead] at hb
    obtain ⟨a, ha, hab⟩ := hcalm.births _ b hb
    exact hab.stays_open (hopen a ha)

/-- What was released stays so. -/
theorem Past.calmer {me : Subject} {stage : UnblockServe} (h : s.Past changeId me stage) (hcalm : Calmer changeId s t) :
    t.Past changeId me stage := by
  cases stage with
  | arrived | read | refused => trivial
  | ownMoved provider =>
    intro b hb
    obtain ⟨a, ha, hab⟩ := hcalm.births me.1 b hb
    exact hab.frozen (h a ha)
  | moving provider left =>
    intro location b hb hleft
    obtain ⟨a, ha, hab⟩ := hcalm.births location b hb
    exact hab.frozen (h location a ha hleft)
  | rowsReleased provider =>
    refine ⟨hcalm.unfrozen h.1, fun b hb => ?_⟩
    obtain ⟨a, ha, hab⟩ := hcalm.births me.1 b hb
    exact hab.rows (h.2 a ha)
  | unblocked provider =>
    refine ⟨hcalm.unfrozen h.1, fun b hb => ?_⟩
    obtain ⟨a, ha, hab⟩ := hcalm.births me.1 b hb
    exact hab.stays_open (h.2 a ha)

theorem past_of_not_opened {me : Subject} {stage : UnblockServe} (h : stage.opened = false) : s.Past changeId me stage := by
  cases stage with
  | arrived | read | refused => trivial
  | ownMoved | moving | rowsReleased | unblocked => cases h

/-- Every birth keeps that, once it acted on the change, the change does not freeze it. -/
def Settles (changeId : String) (s t : MeshRun) : Prop :=
  (∀ b ∈ s.births, b.moves.HasActed changeId → b.Unfrozen changeId) →
    ∀ b ∈ t.births, b.moves.HasActed changeId → b.Unfrozen changeId

theorem Settles.of_births (h : t.births = s.births) : Settles changeId s t := by
  intro hacted b hb
  rw [h] at hb
  exact hacted b hb

theorem Settles.of_set {location : Nat} {a b : Birth} (ha : s.births[location]? = some a)
    (ht : t.births = s.births.set location b)
    (hb : (a.moves.HasActed changeId → a.Unfrozen changeId) → b.moves.HasActed changeId → b.Unfrozen changeId) :
    Settles changeId s t := by
  intro hacted c hc
  rw [ht] at hc
  rcases List.mem_or_eq_of_mem_set hc with hc | rfl
  · exact hacted c hc
  · exact hb (hacted a (List.mem_of_getElem? ha))

/-- A step that calms the mesh and moves no `serve_unblock`. -/
theorem Sound.calmer (h : s.Sound changeId) (hunblocks : t.unblocks = s.unblocks) (hcalm : Calmer changeId s t)
    (hsettles : Settles changeId s t) : t.Sound changeId := by
  refine ⟨fun u hu => ?_, fun u hu hopened => ?_, hsettles h.acted⟩
  · rw [hunblocks] at hu
    exact (h.past u hu).calmer hcalm
  · rw [hunblocks] at hu
    exact (h.covered u hu hopened).calmer hcalm

theorem Sound.same (h : s.Sound changeId) (hunblocks : t.unblocks = s.unblocks) (hlead : t.lead = s.lead)
    (hbirths : t.births = s.births) : t.Sound changeId :=
  h.calmer hunblocks (.of_births hlead hbirths) (.of_births hbirths)

theorem Sound.unopened (h : s.Sound changeId) (hunblocks : t.unblocks = s.unblocks) (hunopened : s.Unopened)
    (hsettles : Settles changeId s t) : t.Sound changeId := by
  refine ⟨fun u hu => ?_, fun u hu hopened => ?_, hsettles h.acted⟩
  · rw [hunblocks] at hu
    exact past_of_not_opened (hunopened u hu)
  · rw [hunblocks] at hu
    rw [hunopened u hu] at hopened
    cases hopened

theorem Sound.setUnblock (h : s.Sound changeId) {k : Nat} {me : Subject} {stage : UnblockServe}
    (hpast : s.Past changeId me stage) (hcovered : stage.opened = true → s.Covered me.1) :
    (s.setUnblock k me stage).Sound changeId := by
  have hcalm : Calmer changeId s (s.setUnblock k me stage) := .of_births rfl rfl
  refine ⟨fun u hu => ?_, fun u hu hopened => ?_, h.acted⟩
  · rcases List.mem_or_eq_of_mem_set hu with hu | rfl
    · exact (h.past u hu).calmer hcalm
    · exact hpast.calmer hcalm
  · rcases List.mem_or_eq_of_mem_set hu with hu | rfl
    · exact (h.covered u hu hopened).calmer hcalm
    · exact (hcovered hopened).calmer hcalm

theorem Sound.refuse (h : s.Sound changeId) (k : Nat) (me : Subject) : (s.setUnblock k me .refused).Sound changeId :=
  h.setUnblock trivial fun hopened => by cases hopened

theorem block_hasActed {m : StorageMoves} (h : (m.block changeId).1.HasActed changeId) : m.HasActed changeId := by
  unfold StorageMoves.block at h
  split at h
  next => exact h
  next =>
    split at h
    next => exact h
    next => split at h <;> exact h

theorem block_frozen {m : StorageMoves} (h : (m.block changeId).1.FrozenBy changeId) :
    m.FrozenBy changeId ∨ (m.blocked = none ∧ ¬ m.HasActed changeId ∧ m.properties = true) := by
  unfold StorageMoves.block at h
  split at h
  next => exact .inl h
  next hnone =>
    split at h
    next => exact .inl h
    next hacted =>
      split at h
      next hproperties =>
        refine .inr ⟨hnone, ?_, hproperties⟩
        rintro ⟨p, hp⟩
        exact hacted (List.any_eq_true.mpr ⟨_, hp, by simp⟩)
      next => exact .inl h

theorem freeze_unblocks (subject : Subject) : (s.freeze changeId subject).1.unblocks = s.unblocks := by
  unfold freeze
  split
  next => split <;> rfl
  next => rfl

theorem settles_freeze (subject : Subject) : Settles changeId s (s.freeze changeId subject).1 := by
  unfold freeze
  split
  next b hb =>
    split
    next =>
      refine .of_set hb rfl fun hold hacted hfrozen => ?_
      have hbefore := block_hasActed hacted
      rcases block_frozen hfrozen with hfrozen | hfresh
      · exact hold hbefore hfrozen
      · exact hfresh.2.1 hbefore
    next => exact .of_births rfl
  next => exact .of_births rfl

/-- A freeze the birth does not take changes nothing. -/
theorem calmer_freeze {subject : Subject} (h : ¬ s.TakesFreeze changeId subject) :
    Calmer changeId s (s.freeze changeId subject).1 := by
  unfold freeze
  split
  next b hb =>
    split
    next hgeneration =>
      refine .of_set hb rfl rfl ⟨fun hunfrozen hfrozen => ?_, id, id⟩
      rcases block_frozen hfrozen with hfrozen | hfresh
      · exact hunfrozen hfrozen
      · exact h ⟨b, hb, hgeneration, hfresh⟩
    next => exact .of_births rfl rfl
  next => exact .of_births rfl rfl

theorem moveOwn_frozen {m : StorageMoves} {provider : String} {mover : Except String Unit}
    (h : (m.moveOwn changeId provider mover).1.FrozenBy changeId) : m.FrozenBy changeId := by
  rcases m.moveOwn_cases changeId provider mover with ⟨hsame, _⟩ | ⟨hmoved, _⟩
  · rw [hsame] at h
    exact h
  · rw [hmoved] at h
    cases h

theorem move_unblocks (location : Nat) (provider : String) (mover : Except String Unit) :
    (s.move changeId location provider mover).1.unblocks = s.unblocks := by
  unfold move
  split <;> rfl

theorem calmer_move (location : Nat) (provider : String) (mover : Except String Unit) :
    Calmer changeId s (s.move changeId location provider mover).1 := by
  unfold move
  split
  next b hb => exact .of_set hb rfl rfl ⟨fun hunfrozen hfrozen => hunfrozen (moveOwn_frozen hfrozen), id, id⟩
  next => exact .of_births rfl rfl

theorem settles_move (location : Nat) (provider : String) (mover : Except String Unit) :
    Settles changeId s (s.move changeId location provider mover).1 := by
  unfold move
  split
  next b hb =>
    refine .of_set hb rfl fun hold hacted hfrozen => ?_
    rcases b.moves.moveOwn_cases changeId provider mover with ⟨hsame, _⟩ | ⟨hmoved, _⟩
    · have hacted : (b.moves.moveOwn changeId provider mover).1.HasActed changeId := hacted
      rw [hsame] at hacted
      exact hold hacted (moveOwn_frozen hfrozen)
    · have hfrozen : (b.moves.moveOwn changeId provider mover).1.FrozenBy changeId := hfrozen
      rw [hmoved] at hfrozen
      cases hfrozen
  next => exact .of_births rfl

/-- A birth that answered its move is not frozen by the change. -/
theorem unfrozen_of_stepped (hacted : ∀ b ∈ s.births, b.moves.HasActed changeId → b.Unfrozen changeId) {location : Nat}
    {provider : String} {mover : Except String Unit} (h : (s.move changeId location provider mover).2 = true) :
    ∀ b, (s.move changeId location provider mover).1.births[location]? = some b → b.Unfrozen changeId := by
  intro b hb
  have hsettles : Settles changeId s (s.move changeId location provider mover).1 := settles_move location provider mover
  apply hsettles hacted b (List.mem_of_getElem? hb)
  unfold move at h hb
  split at h
  next a ha =>
    rw [ha] at hb
    obtain ⟨_, rfl⟩ | ⟨hne, _⟩ := getElem?_of_set hb
    · split at h
      next p hp => exact ⟨p, StorageMoves.moveOwn_stepped hp⟩
      next => cases h
    · exact absurd rfl hne
  next => cases h

theorem of_serving {me : Subject} {b : Birth} (h : s.serving me = some b) : s.births[me.1]? = some b :=
  (Option.filter_eq_some_iff.mp h).1

/-- What a `serve_block` marks of its birth leaves every freeze as it is. -/
theorem Sound.marks (h : s.Sound changeId) (hunopened : s.Unopened) {location : Nat} {a b : Birth}
    (ha : s.births[location]? = some a) (hmoves : b.moves = a.moves) (ht : t.births = s.births.set location b)
    (hunblocks : t.unblocks = s.unblocks) : t.Sound changeId := by
  refine h.unopened hunblocks hunopened (.of_set ha ht fun hold => ?_)
  unfold Birth.Unfrozen at hold ⊢
  rw [hmoves]
  exact hold

theorem Sound.freeze (h : s.Sound changeId) {subject : Subject} (hok : s.TakesFreeze changeId subject → s.Unopened) :
    (s.freeze changeId subject).1.Sound changeId := by
  by_cases htakes : s.TakesFreeze changeId subject
  · exact h.unopened (freeze_unblocks subject) (hok htakes) (settles_freeze subject)
  · exact h.calmer (freeze_unblocks subject) (calmer_freeze htakes) (settles_freeze subject)

theorem Sound.releases (h : s.Sound changeId) {location : Nat} {a b : Birth} (ha : s.births[location]? = some a)
    (hmoves : b.moves = a.moves) (hblocked : a.blocked = false → b.blocked = false)
    (hrows : a.rowsHeld = false → b.rowsHeld = false) :
    Calmer changeId s (s.setBirth location b) ∧ (s.setBirth location b).Sound changeId := by
  have hfrozen : a.Unfrozen changeId → b.Unfrozen changeId := by
    unfold Birth.Unfrozen
    rw [hmoves]
    exact id
  have hcalm : Calmer changeId s (s.setBirth location b) := .of_set ha rfl rfl ⟨hfrozen, hblocked, hrows⟩
  refine ⟨hcalm, h.calmer rfl hcalm (.of_set ha rfl fun hold => ?_)⟩
  rw [hmoves]
  exact fun hacted => hfrozen (hold hacted)

theorem Sound.move (h : s.Sound changeId) (location : Nat) (provider : String) (mover : Except String Unit) :
    (s.move changeId location provider mover).1.Sound changeId :=
  h.calmer (move_unblocks location provider mover) (calmer_move location provider mover) (settles_move location provider mover)

theorem Sound.stepBlock (h : s.Sound changeId) {m : BlockMove} (hok : s.Undisturbed changeId (.block m)) :
    (s.stepBlock changeId m).Sound changeId := by
  cases m with
  | sends location =>
    dsimp only [MeshRun.stepBlock]
    split
    next => exact h.same rfl rfl rfl
    next => exact h
  | begins k view =>
    dsimp only [MeshRun.stepBlock]
    split
    next =>
      split
      next => split <;> exact h.same rfl rfl rfl
      next => exact h.same rfl rfl rfl
    next => exact h
  | freezes k =>
    dsimp only [MeshRun.stepBlock]
    split
    next me subject rest hk =>
      split
      next =>
        have hfrozen := h.freeze (hok me subject rest hk)
        split
        next => exact hfrozen.same rfl rfl rfl
        next => exact hfrozen.same rfl rfl rfl
      next => exact h.same rfl rfl rfl
    next => exact h
  | unanswered k =>
    dsimp only [MeshRun.stepBlock]
    split
    next => exact h.same rfl rfl rfl
    next => exact h
  | lateFreeze j =>
    dsimp only [MeshRun.stepBlock]
    split
    next subject hj => exact (h.freeze (hok subject hj)).same rfl rfl rfl
    next => exact h
  | lateLost j => exact h.same rfl rfl rfl
  | marks k =>
    dsimp only [MeshRun.stepBlock]
    split
    next =>
      split
      next b hb => exact h.marks (b := { b with blocked := true }) hok (of_serving hb) rfl rfl rfl
      next => exact h.same rfl rfl rfl
    next =>
      split
      next b hb => exact h.marks (b := { b with rowsHeld := true }) hok (of_serving hb) rfl rfl rfl
      next => exact h.same rfl rfl rfl
    next => exact h
  | answers k =>
    dsimp only [MeshRun.stepBlock]
    split
    next => exact h.same rfl rfl rfl
    next => exact h
  | dropped k =>
    dsimp only [MeshRun.stepBlock]
    split
    next => exact h.same rfl rfl rfl
    next => exact h.same rfl rfl rfl
    next => exact h

theorem of_setBirth {location : Nat} {b c : Birth} (h : (s.setBirth location b).births[location]? = some c) : c = b := by
  obtain ⟨_, rfl⟩ | ⟨hne, _⟩ := getElem?_of_set h
  · rfl
  · exact absurd rfl hne

theorem Sound.asked (h : s.Sound changeId) (me : Subject) :
    ({ s with unblocks := s.unblocks ++ [(me, .arrived)] } : MeshRun).Sound changeId := by
  have hcalm : Calmer changeId s { s with unblocks := s.unblocks ++ [(me, .arrived)] } := .of_births rfl rfl
  refine ⟨fun u hu => ?_, fun u hu hopened => ?_, h.acted⟩
  · rcases List.mem_append.mp hu with hu | hu
    · exact (h.past u hu).calmer hcalm
    · rw [List.mem_singleton.mp hu]
      trivial
  · rcases List.mem_append.mp hu with hu | hu
    · exact (h.covered u hu hopened).calmer hcalm
    · rw [List.mem_singleton.mp hu] at hopened
      cases hopened

section Serve

variable {k : Nat} {me : Subject} {provider : String} {b : Birth}

theorem Sound.past_at (h : s.Sound changeId) {stage : UnblockServe} (hk : s.unblocks[k]? = some (me, stage)) :
    s.Past changeId me stage := h.past _ (List.mem_of_getElem? hk)

/-- A serve that has moved its own birth goes on, having released more. -/
theorem Sound.goesOn (h : s.Sound changeId) {stage after : UnblockServe} (hk : s.unblocks[k]? = some (me, stage))
    (hopened : stage.opened = true) (ht : t.Sound changeId) (hcalm : Calmer changeId s t) (hpast : t.Past changeId me after) :
    (t.setUnblock k me after).Sound changeId := by
  have hcovered := h.covered _ (List.mem_of_getElem? hk) hopened
  exact ht.setUnblock hpast fun _ => hcovered.calmer hcalm

theorem Sound.ownReleased (h : s.Sound changeId) (hk : s.unblocks[k]? = some (me, .ownMoved provider))
    (hb : s.serving me = some b) {view : List Nat}
    (hview : ∀ location a, s.births[location]? = some a → location ∉ view → a.Unfrozen changeId) :
    ((s.setBirth me.1 { b with rowsHeld := false }).setUnblock k me
      (.moving provider (view.filter fun l => decide (l ≠ me.1)))).Sound changeId := by
  obtain ⟨hcalm, hsound⟩ := h.releases (b := { b with rowsHeld := false }) (of_serving hb) rfl id fun _ => rfl
  have hown := (h.past_at hk).calmer hcalm
  refine h.goesOn hk rfl hsound hcalm fun location c hc hleft => ?_
  by_cases hme : location = me.1
  · subst hme
    exact hown c hc
  · obtain ⟨a, ha, hac⟩ := hcalm.births location c hc
    have hmissing : location ∉ view := fun hin => hleft (List.mem_filter.mpr ⟨hin, decide_eq_true hme⟩)
    exact hac.frozen (hview location a ha hmissing)

theorem Sound.oneMoved (h : s.Sound changeId) {left : List Nat} (hk : s.unblocks[k]? = some (me, .moving provider left))
    {location : Nat} {mover : Except String Unit} (hmoved : (s.move changeId location provider mover).2 = true) :
    ((s.move changeId location provider mover).1.setUnblock k me
      (.moving provider (left.filter fun l => decide (l ≠ location)))).Sound changeId := by
  have hcalm : Calmer changeId s (s.move changeId location provider mover).1 := calmer_move location provider mover
  have hpast := (h.past_at hk).calmer hcalm
  refine h.goesOn hk rfl (h.move location provider mover) hcalm fun l b hb hleft => ?_
  by_cases hl : l = location
  · subst hl
    exact unfrozen_of_stepped h.acted hmoved b hb
  · exact hpast l b hb fun hin => hleft (List.mem_filter.mpr ⟨hin, decide_eq_true hl⟩)

theorem Sound.rowsReleased (h : s.Sound changeId) (hk : s.unblocks[k]? = some (me, .moving provider []))
    (hb : s.serving me = some b) :
    ((s.setBirth me.1 { b with rowsHeld := false }).setUnblock k me (.rowsReleased provider)).Sound changeId := by
  obtain ⟨hcalm, hsound⟩ := h.releases (b := { b with rowsHeld := false }) (of_serving hb) rfl id fun _ => rfl
  have hpast : s.Past changeId me (.moving provider []) := h.past_at hk
  refine h.goesOn hk rfl hsound hcalm ⟨hcalm.unfrozen fun c hc => ?_, fun c hc => ?_⟩
  · obtain ⟨location, hlocation⟩ := List.mem_iff_getElem?.mp hc
    exact hpast location c hlocation List.not_mem_nil
  · rw [of_setBirth hc]

theorem Sound.unblocked (h : s.Sound changeId) (hk : s.unblocks[k]? = some (me, .rowsReleased provider))
    (hb : s.serving me = some b) :
    ((s.setBirth me.1 { b with blocked := false }).setUnblock k me (.unblocked provider)).Sound changeId := by
  obtain ⟨hcalm, hsound⟩ := h.releases (b := { b with blocked := false }) (of_serving hb) rfl (fun _ => rfl) id
  have hpast : s.Past changeId me (.rowsReleased provider) := h.past_at hk
  refine h.goesOn hk rfl hsound hcalm ⟨hcalm.unfrozen hpast.1, fun c hc => ?_⟩
  rw [of_setBirth hc]
  exact ⟨rfl, hpast.2 b (of_serving hb)⟩

end Serve

theorem Sound.stepUnblock (h : s.Sound changeId) {m : UnblockMove} (hok : s.Undisturbed changeId (.unblock m)) :
    (s.stepUnblock changeId m).Sound changeId := by
  cases m with
  | sends location =>
    dsimp only [MeshRun.stepUnblock]
    split
    next b _ => exact h.asked (location, b.generation)
    next => exact h
  | reads k decided =>
    dsimp only [MeshRun.stepUnblock]
    split
    next =>
      split
      next =>
        split
        next => exact h.setUnblock trivial fun hopened => by cases hopened
        next => exact h.refuse k _
      next => exact h.refuse k _
    next => exact h
  | movesOwn k mover =>
    dsimp only [MeshRun.stepUnblock]
    split
    next me provider hk =>
      split
      next =>
        split
        next hmoved =>
          refine (h.move me.1 provider mover).setUnblock (unfrozen_of_stepped h.acted hmoved) fun _ => ?_
          exact (hok me provider hk).calmer (calmer_move me.1 provider mover)
        next => exact (h.move me.1 provider mover).refuse k me
      next => exact h.refuse k me
    next => exact h
  | releasesRows k view =>
    dsimp only [MeshRun.stepUnblock]
    split
    next me provider hk =>
      split
      next b hb => exact h.ownReleased hk hb hok
      next => exact h.refuse k me
    next => exact h
  | moves k location mover =>
    dsimp only [MeshRun.stepUnblock]
    split
    next me provider left hk =>
      split
      next =>
        split
        next hmoved => exact h.oneMoved hk hmoved.2.2
        next => exact h
      next => exact h.refuse k me
    next => exact h
  | releases k =>
    dsimp only [MeshRun.stepUnblock]
    split
    next me provider hk =>
      split
      next b hb => exact h.rowsReleased hk hb
      next => exact h.refuse k me
    next => exact h
  | answers k =>
    dsimp only [MeshRun.stepUnblock]
    split
    next me provider hk =>
      split
      next b hb => exact h.unblocked hk hb
      next => exact h.refuse k me
    next => exact h
  | dropped k =>
    dsimp only [MeshRun.stepUnblock]
    split
    next me provider hk => exact h.setUnblock (h.past_at hk) (h.covered _ (List.mem_of_getElem? hk))
    next => exact h.refuse k _
    next => exact h

theorem Sound.step (h : s.Sound changeId) {m : MeshMove} (hok : s.Undisturbed changeId m) :
    (s.step changeId m).Sound changeId := by
  cases m with
  | block m => exact h.stepBlock hok
  | unblock m => exact h.stepUnblock hok
  | lateMove location provider mover => exact h.move location provider mover
  | replaced location provider =>
    dsimp only [MeshRun.step]
    split
    next b hb =>
      -- The fresh birth holds nothing.
      have hfresh : ¬ (⟨[], none, provider, true⟩ : StorageMoves).FrozenBy changeId := fun hfrozen => by cases hfrozen
      exact h.calmer rfl (.of_set hb rfl rfl ⟨fun _ => hfresh, fun _ => rfl, fun _ => rfl⟩) (.of_set hb rfl fun _ _ => hfresh)
    next => exact h
  | elected location =>
    dsimp only [MeshRun.step]
    split
    next =>
      refine ⟨fun u hu => ?_, hok, h.acted⟩
      have hpast := h.past u hu
      revert hpast
      cases u.2 <;> exact id
    next => exact h

/-- A mesh one of whose `serve_unblock`s answered is released. -/
theorem Sound.released (h : s.Sound changeId) (hanswered : ∃ u ∈ s.unblocks, u.2.answered = true) : s.Released changeId := by
  obtain ⟨⟨me, stage⟩, hu, hstage⟩ := hanswered
  cases stage with
  | unblocked provider =>
    have hpast : s.Past changeId me (.unblocked provider) := h.past _ hu
    refine ⟨hpast.1, fun b hb => ?_⟩
    rcases h.covered _ hu rfl with hlead | hopen
    · unfold primary at hb
      rw [hlead] at hb
      exact hpast.2 b hb
    · exact hopen b hb
  | arrived | read | ownMoved | moving | rowsReleased | refused => cases hstage

theorem answered_set {k : Nat} {me you : Subject} {stage new : UnblockServe} (hk : s.unblocks[k]? = some (me, stage))
    (hstage : stage.answered = true → new.answered = true) (h : ∃ u ∈ s.unblocks, u.2.answered = true) :
    ∃ u ∈ s.unblocks.set k (you, new), u.2.answered = true := by
  obtain ⟨u, hu, hanswered⟩ := h
  obtain ⟨i, hi⟩ := List.mem_iff_getElem?.mp hu
  have hlength : k < s.unblocks.length := (List.getElem?_eq_some_iff.mp hk).1
  by_cases hik : i = k
  · subst hik
    rw [hk] at hi
    cases hi
    exact ⟨_, List.mem_set hlength _, hstage hanswered⟩
  · refine ⟨u, List.mem_of_getElem? (i := i) ?_, hanswered⟩
    rw [List.getElem?_set_ne (Ne.symm hik)]
    exact hi

theorem stepBlock_unblocks (m : BlockMove) : (s.stepBlock changeId m).unblocks = s.unblocks := by
  cases m with
  | sends location =>
    dsimp only [MeshRun.stepBlock]
    split <;> rfl
  | begins k view =>
    dsimp only [MeshRun.stepBlock]
    split
    next =>
      split
      next => split <;> rfl
      next => rfl
    next => rfl
  | freezes k =>
    dsimp only [MeshRun.stepBlock]
    split
    next me subject rest hk =>
      split
      next => split <;> exact freeze_unblocks subject
      next => rfl
    next => rfl
  | unanswered k =>
    dsimp only [MeshRun.stepBlock]
    split <;> rfl
  | lateFreeze j =>
    dsimp only [MeshRun.stepBlock]
    split
    next subject _ => exact freeze_unblocks subject
    next => rfl
  | lateLost j => rfl
  | marks k =>
    dsimp only [MeshRun.stepBlock]
    split
    next => split <;> rfl
    next => split <;> rfl
    next => rfl
  | answers k =>
    dsimp only [MeshRun.stepBlock]
    split <;> rfl
  | dropped k =>
    dsimp only [MeshRun.stepBlock]
    split <;> rfl

theorem answered_stepUnblock (m : UnblockMove) (h : ∃ u ∈ s.unblocks, u.2.answered = true) :
    ∃ u ∈ (s.stepUnblock changeId m).unblocks, u.2.answered = true := by
  cases m with
  | sends location =>
    dsimp only [MeshRun.stepUnblock]
    split
    next =>
      obtain ⟨u, hu, hanswered⟩ := h
      exact ⟨u, List.mem_append_left _ hu, hanswered⟩
    next => exact h
  | reads k decided =>
    dsimp only [MeshRun.stepUnblock]
    split
    next hk => exact answered_set hk (fun hanswered => by cases hanswered) h
    next => exact h
  | movesOwn k mover =>
    dsimp only [MeshRun.stepUnblock]
    split
    next me provider hk =>
      have hmove : (s.move changeId me.1 provider mover).1.unblocks = s.unblocks := move_unblocks me.1 provider mover
      have hk' := hk
      rw [← hmove] at h hk'
      split
      next => split <;> exact answered_set hk' (fun hanswered => by cases hanswered) h
      next => exact answered_set hk (fun hanswered => by cases hanswered) (hmove ▸ h)
    next => exact h
  | releasesRows k view =>
    dsimp only [MeshRun.stepUnblock]
    split
    next hk => split <;> exact answered_set hk (fun hanswered => by cases hanswered) h
    next => exact h
  | moves k location mover =>
    dsimp only [MeshRun.stepUnblock]
    split
    next me provider left hk =>
      have hmove : (s.move changeId location provider mover).1.unblocks = s.unblocks := move_unblocks location provider mover
      split
      next =>
        split
        next =>
          have hk' := hk
          rw [← hmove] at h hk'
          exact answered_set hk' (fun hanswered => by cases hanswered) h
        next => exact h
      next => exact answered_set hk (fun hanswered => by cases hanswered) h
    next => exact h
  | releases k =>
    dsimp only [MeshRun.stepUnblock]
    split
    next hk => split <;> exact answered_set hk (fun hanswered => by cases hanswered) h
    next => exact h
  | answers k =>
    dsimp only [MeshRun.stepUnblock]
    split
    next hk => split <;> exact answered_set hk (fun hanswered => by cases hanswered) h
    next => exact h
  | dropped k =>
    dsimp only [MeshRun.stepUnblock]
    split
    next hk => exact answered_set hk id h
    next me stage hne hk =>
      refine answered_set hk (fun hanswered => ?_) h
      cases stage with
      | unblocked provider => exact absurd rfl (hne provider)
      | arrived | read | ownMoved | moving | rowsReleased | refused => cases hanswered
    next => exact h

/-- What answered stays answered. -/
theorem answered_step (m : MeshMove) (h : ∃ u ∈ s.unblocks, u.2.answered = true) :
    ∃ u ∈ (s.step changeId m).unblocks, u.2.answered = true := by
  cases m with
  | block m =>
    rw [MeshRun.step, stepBlock_unblocks]
    exact h
  | unblock m => exact answered_stepUnblock m h
  | lateMove location provider mover =>
    rw [MeshRun.step, move_unblocks]
    exact h
  | replaced location provider =>
    dsimp only [MeshRun.step]
    split <;> exact h
  | elected location =>
    dsimp only [MeshRun.step]
    split <;> exact h

end MeshRun

namespace FabricRun

/-- The mesh the step is taken in meets its condition. -/
def Undisturbed (changeId : String) (s : FabricRun) : FabricMove → Prop
  | .inMesh i m => ∀ mesh, s.meshes[i]? = some mesh → mesh.Undisturbed changeId m
  | .writesEnded => True

/-- Every mesh is sound, and once the ended event is written, each answered `unblocked`. -/
structure Sound (changeId : String) (s : FabricRun) : Prop where
  meshes : ∀ mesh ∈ s.meshes, mesh.Sound changeId
  answered : s.ended = true → ∀ mesh ∈ s.meshes, ∃ u ∈ mesh.unblocks, u.2.answered = true

variable {changeId : String} {s : FabricRun}

theorem Sound.step (h : s.Sound changeId) {m : FabricMove} (hok : s.Undisturbed changeId m) :
    (s.step changeId m).Sound changeId := by
  cases m with
  | inMesh i m =>
    dsimp only [FabricRun.step]
    split
    next mesh hi =>
      have hmem := List.mem_of_getElem? hi
      refine ⟨fun other hother => ?_, fun hended other hother => ?_⟩
      · rcases List.mem_or_eq_of_mem_set hother with hother | rfl
        · exact h.meshes other hother
        · exact (h.meshes mesh hmem).step (hok mesh hi)
      · rcases List.mem_or_eq_of_mem_set hother with hother | rfl
        · exact h.answered hended other hother
        · exact MeshRun.answered_step m (h.answered hended mesh hmem)
    next => exact h
  | writesEnded =>
    dsimp only [FabricRun.step]
    split
    next hall =>
      refine ⟨h.meshes, fun _ mesh hmesh => ?_⟩
      exact List.any_eq_true.mp (List.all_eq_true.mp hall mesh hmesh)
    next => exact h

/-- A step of a change whose commands come in turn: every `mesh.block` before a `mesh.unblock`, each at a mesh-primary whose
view holds its mesh. -/
def InTurn (s : FabricRun) : FabricMove → Prop
  | .inMesh _ (.block _) => ∀ mesh ∈ s.meshes, ∀ u ∈ mesh.unblocks, u.2.opened = false
  | .inMesh _ (.unblock (.releasesRows _ view)) => ∀ mesh ∈ s.meshes, ∀ location < mesh.births.length, location ∈ view
  | .inMesh _ (.unblock _) => ∀ mesh ∈ s.meshes, ∀ u ∈ mesh.unblocks, mesh.lead = u.1.1
  | .inMesh _ (.elected _) => ∀ mesh ∈ s.meshes, ∀ u ∈ mesh.unblocks, u.2.opened = false
  | _ => True

instance InTurn.decidable (s : FabricRun) : ∀ m, Decidable (s.InTurn m)
  | .inMesh _ (.block _) => inferInstanceAs (Decidable (∀ mesh ∈ s.meshes, ∀ u ∈ mesh.unblocks, u.2.opened = false))
  | .inMesh _ (.unblock (.releasesRows _ view)) =>
    inferInstanceAs (Decidable (∀ mesh ∈ s.meshes, ∀ location < mesh.births.length, location ∈ view))
  | .inMesh _ (.unblock (.sends _)) | .inMesh _ (.unblock (.reads _ _)) | .inMesh _ (.unblock (.movesOwn _ _))
  | .inMesh _ (.unblock (.moves _ _ _)) | .inMesh _ (.unblock (.releases _)) | .inMesh _ (.unblock (.answers _))
  | .inMesh _ (.unblock (.dropped _)) =>
    inferInstanceAs (Decidable (∀ mesh ∈ s.meshes, ∀ u ∈ mesh.unblocks, mesh.lead = u.1.1))
  | .inMesh _ (.elected _) => inferInstanceAs (Decidable (∀ mesh ∈ s.meshes, ∀ u ∈ mesh.unblocks, u.2.opened = false))
  | .inMesh _ (.lateMove _ _ _) => inferInstanceAs (Decidable True)
  | .inMesh _ (.replaced _ _) => inferInstanceAs (Decidable True)
  | .writesEnded => inferInstanceAs (Decidable True)

/-- Commands in turn disturb nothing. -/
theorem InTurn.undisturbed {m : FabricMove} (h : s.InTurn m) (changeId : String) : s.Undisturbed changeId m := by
  cases m with
  | writesEnded => trivial
  | inMesh i m =>
    intro mesh hi
    have hmem := List.mem_of_getElem? hi
    cases m with
    | block m =>
      have hunopened : mesh.Unopened := h mesh hmem
      cases m with
      | freezes k => exact fun _ _ _ _ _ => hunopened
      | lateFreeze j => exact fun _ _ _ => hunopened
      | marks k => exact hunopened
      | sends | begins | unanswered | lateLost | answers | dropped => trivial
    | unblock m =>
      cases m with
      | movesOwn k mover => exact fun me provider hk => .inl (h mesh hmem _ (List.mem_of_getElem? hk))
      | releasesRows k view =>
        intro location b hb hmissing
        exact absurd (h mesh hmem location (List.getElem?_eq_some_iff.mp hb).1) hmissing
      | sends | reads | moves | releases | answers | dropped => trivial
    | elected location =>
      intro u hu hopened
      rw [h mesh hmem u hu] at hopened
      cases hopened
    | lateMove | replaced => trivial

/-- A `mesh.block` that freezes every birth. -/
def freezes : List FabricMove :=
  [.inMesh 0 (.block (.sends 0)), .inMesh 0 (.block (.begins 0 [(0, 0), (1, 0)])), .inMesh 0 (.block (.freezes 0)),
    .inMesh 0 (.block (.freezes 0))]

/-- The `mesh.block` marks its commands and its rows, and answers. -/
def marks : List FabricMove :=
  [.inMesh 0 (.block (.marks 0)), .inMesh 0 (.block (.marks 0)), .inMesh 0 (.block (.answers 0))]

/-- A `mesh.unblock` onto the new provider, served to its end, and the ended event. -/
def ends : List FabricMove :=
  [.inMesh 0 (.unblock (.sends 0)), .inMesh 0 (.unblock (.reads 0 (some "file"))),
    .inMesh 0 (.unblock (.movesOwn 0 (.ok ()))), .inMesh 0 (.unblock (.releasesRows 0 [0, 1])),
    .inMesh 0 (.unblock (.moves 0 1 (.ok ()))), .inMesh 0 (.unblock (.releases 0)), .inMesh 0 (.unblock (.answers 0)),
    .writesEnded]

end FabricRun

end DistributedMesh.Storage
