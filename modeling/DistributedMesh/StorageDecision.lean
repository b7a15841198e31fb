import DistributedMesh.GuardedRuns
import DistributedMesh.StorageMoves

namespace DistributedMesh.Storage

open GuardedRuns

/-- How a change's steps ended. -/
inductive Ended where
  | complete
  | failed (reason : String)
deriving DecidableEq

def interruptedReason : String := "interrupted by fabric.delete"

/-- Where the fabric-primary's run of a change is. -/
inductive Phase where
  /-- `mesh.block` to every mesh-primary. -/
  | blocking
  /-- The read of the committed event before the copy. -/
  | reading
  | copying
  /-- The copy failed by name: the decision is read. -/
  | failing (why : String)
  /-- `insert_commit` reads whether the event stands. -/
  | switching
  /-- The append is issued and awaited. -/
  | appending
  /-- The switch reads the event after an error. -/
  | rereading
  /-- Switched: the fabric-primary moves itself and writes the Fabric row's line. -/
  | moving
  /-- `mesh.unblock` to every mesh-primary. -/
  | unblocking (ended : Ended)
  /-- The steps are dropped: `mesh.unblock` to every mesh-primary. -/
  | interrupted
  | deciding (ended : Ended)
  /-- The ended event is to be written on the provider. -/
  | ending (ended : Ended) (provider : String)
  | finished (ended : Ended) (provider : String)
deriving DecidableEq

/-- Where a mesh-primary's `serve_unblock` is. -/
inductive ServeStage where
  | began
  | read (provider : String)
  /-- It moved itself; its nodes follow. -/
  | moved (provider : String)
  | unblocked (provider : String)
  | refused
deriving DecidableEq

/-- A change in its run: whether its committed event stands on the new provider, the appends of it that were issued and may yet
land, the fabric-primary's phase, each mesh-primary's own moves, and the `mesh.unblock`s that mesh-primaries serve. The
fabric-primary is the first mesh-primary. -/
structure ChangeRun where
  committed : Bool
  issued : Nat
  phase : Phase
  primaries : List StorageMoves
  serves : List (Nat × ServeStage)
deriving DecidableEq

/-- What happens next. `answered` is whether the provider answers the read. -/
inductive DecisionMove where
  | meshesBlocked
  | readsCommit (answered : Bool)
  | copied
  | copyFails (why : String)
  | decidesFailure (answered : Bool)
  | insertReads (answered : Bool)
  /-- The append answers `Ok`, or its answer is an error or missing. -/
  | appendAnswers (ok : Bool)
  | rereads (answered : Bool)
  | movesOwn (mover : Except String Unit)
  | meshesUnblocked
  /-- fabric.delete drops the steps at an await. -/
  | interrupts
  | decides (answered : Bool)
  | writesEnded
  /-- An issued append lands, its caller there or not. -/
  | lands
  /-- An issued append never lands. -/
  | lost
  /-- `mesh.unblock` reaches a mesh-primary, sent the first time or again. -/
  | sends (m : Nat)
  | serveReads (k : Nat) (answered : Bool)
  | serveMoves (k : Nat) (mover : Except String Unit)
  | serveAnswers (k : Nat)
  /-- A mesh-primary is another birth now, which acted on nothing of the change. -/
  | replaced (m : Nat) (provider : String)

namespace Phase

/-- The phases of `steps`, which an interruption drops. -/
def inSteps : Phase → Bool
  | .interrupted => false
  | .deciding _ => false
  | .ending _ _ => false
  | .finished _ _ => false
  | _ => true

/-- From the first `mesh.unblock` on. -/
def unblocks : Phase → Bool
  | .unblocking _ => true
  | .interrupted => true
  | .deciding _ => true
  | .ending _ _ => true
  | .finished _ _ => true
  | _ => false

/-- No append has been issued yet. -/
def beforeSwitch : Phase → Bool
  | .blocking => true
  | .reading => true
  | .copying => true
  | .failing _ => true
  | _ => false

/-- The provider the ended event is, or will be, written on. -/
def endsOn : Phase → Option String
  | .ending _ provider => some provider
  | .finished _ provider => some provider
  | _ => none

end Phase

namespace ServeStage

def provider : ServeStage → Option String
  | .read p => some p
  | .moved p => some p
  | .unblocked p => some p
  | _ => none

end ServeStage

namespace ChangeRun

def start (committed : Bool) (primaries : List StorageMoves) : ChangeRun := ⟨committed, 0, .blocking, primaries, []⟩

/-- The provider the committed event decides. -/
def decided (change : StorageChange) (s : ChangeRun) : String := if s.committed then change.new else change.old

def goTo (s : ChangeRun) (phase : Phase) : ChangeRun := { s with phase := phase }

def setServe (s : ChangeRun) (k m : Nat) (stage : ServeStage) : ChangeRun := { s with serves := s.serves.set k (m, stage) }

def step (change : StorageChange) (s : ChangeRun) : DecisionMove → ChangeRun
  | .meshesBlocked =>
    match s.phase with
    | .blocking => s.goTo .reading
    | _ => s
  | .readsCommit answered =>
    match s.phase with
    -- A read that errs is no read that the event stands: the change goes on to its copy.
    | .reading => s.goTo (if answered && s.committed then .moving else .copying)
    | _ => s
  | .copied =>
    match s.phase with
    | .copying => s.goTo .switching
    | _ => s
  | .copyFails why =>
    match s.phase with
    | .copying => s.goTo (.failing why)
    | _ => s
  | .decidesFailure answered =>
    match s.phase with
    | .failing why =>
      if answered then s.goTo (if s.decided change = change.new then .switching else .unblocking (.failed why)) else s
    | _ => s
  | .insertReads answered =>
    match s.phase with
    | .switching =>
      if answered then
        if s.committed then s.goTo .moving else { s with phase := .appending, issued := s.issued + 1 }
      else s.goTo .rereading
    | _ => s
  | .appendAnswers ok =>
    match s.phase with
    | .appending => if ok then (if s.committed then s.goTo .moving else s) else s.goTo .rereading
    | _ => s
  | .rereads answered =>
    match s.phase with
    | .rereading => s.goTo (if answered && s.committed then .moving else .switching)
    | _ => s
  | .movesOwn mover =>
    match s.phase, s.primaries[0]? with
    | .moving, some own =>
      match own.moveOwn change.changeId change.new mover with
      | (own', .storageStepped _) => { s with phase := .unblocking .complete, primaries := s.primaries.set 0 own' }
      | _ => s
    | _, _ => s
  | .meshesUnblocked =>
    match s.phase with
    | .unblocking ended => s.goTo (.deciding ended)
    | .interrupted => s.goTo (.deciding (.failed interruptedReason))
    | _ => s
  | .interrupts => if s.phase.inSteps then s.goTo .interrupted else s
  | .decides answered =>
    match s.phase with
    | .deciding ended => if answered then s.goTo (.ending ended (s.decided change)) else s
    | _ => s
  | .writesEnded =>
    match s.phase with
    | .ending ended provider => s.goTo (.finished ended provider)
    | _ => s
  | .lands => if 0 < s.issued then { s with committed := true, issued := s.issued - 1 } else s
  | .lost => { s with issued := s.issued - 1 }
  | .sends m =>
    match s.phase with
    | .unblocking _ => { s with serves := s.serves ++ [(m, .began)] }
    | .interrupted => { s with serves := s.serves ++ [(m, .began)] }
    | _ => s
  | .serveReads k answered =>
    match s.serves[k]? with
    | some (m, .began) => s.setServe k m (if answered then .read (s.decided change) else .refused)
    | _ => s
  | .serveMoves k mover =>
    match s.serves[k]? with
    | some (m, .read provider) =>
      match s.primaries[m]? with
      | some own =>
        match own.moveOwn change.changeId provider mover with
        | (own', .storageStepped _) => { s.setServe k m (.moved provider) with primaries := s.primaries.set m own' }
        | _ => s.setServe k m .refused
      | none => s
    | _ => s
  | .serveAnswers k =>
    match s.serves[k]? with
    | some (m, .moved provider) => s.setServe k m (.unblocked provider)
    | _ => s
  | .replaced m provider => { s with primaries := s.primaries.set m ⟨[], none, provider, true⟩ }

/-- fabric.delete drops the steps only while the committed event stands or none of its appends is still to land. -/
def Clear (s : ChangeRun) : DecisionMove → Prop
  | .interrupts => s.phase.inSteps = true → s.committed = true ∨ s.issued = 0
  | _ => True

/-- One provider: every mesh-primary that answered `unblocked` moved onto it, each of the change's moves is onto it, the ended
event is written on it, and it is the new one exactly when the committed event stands. -/
def OneDecision (change : StorageChange) (s : ChangeRun) : Prop :=
  ∃ provider, (∀ m p, (m, ServeStage.unblocked p) ∈ s.serves → p = provider) ∧
    (∀ own ∈ s.primaries, ∀ p, (change.changeId, p) ∈ own.acted → p = provider) ∧
    (∀ ended p, s.phase = .finished ended p → p = provider) ∧ (provider = change.new ↔ s.committed = true)

structure Sound (change : StorageChange) (s : ChangeRun) : Prop where
  quiet : s.phase.beforeSwitch = true → s.issued = 0
  fixed : s.phase.unblocks = true → s.committed = true ∨ s.issued = 0
  switched : s.phase = .moving → s.committed = true
  serves : ∀ serve ∈ s.serves, ∀ p, serve.2.provider = some p → p = s.decided change
  begun : s.serves ≠ [] → s.phase.unblocks = true
  acted : ∀ own ∈ s.primaries, ∀ p, (change.changeId, p) ∈ own.acted →
    p = s.decided change ∧ (s.committed = true ∨ s.phase.unblocks = true)
  ends : ∀ p, s.phase.endsOn = some p → p = s.decided change

theorem decided_eq_new {change : StorageChange} {s : ChangeRun} : s.decided change = change.new ↔ s.committed = true := by
  unfold decided
  split
  next h => exact ⟨fun _ => h, fun _ => rfl⟩
  next h => exact ⟨fun heq => absurd heq change.apart, fun h' => absurd h' h⟩

theorem Sound.oneDecision {change : StorageChange} {s : ChangeRun} (h : Sound change s) : s.OneDecision change := by
  refine ⟨s.decided change, fun m p hp => ?_, fun own hown p hp => (h.acted own hown p hp).1, fun ended p hp => ?_,
    decided_eq_new⟩
  · exact h.serves _ hp p rfl
  · exact h.ends p (by rw [hp]; rfl)

theorem Sound.goTo {change : StorageChange} {s : ChangeRun} (h : Sound change s) {phase : Phase}
    (hquiet : phase.beforeSwitch = true → s.phase.beforeSwitch = true)
    (hfixed : phase.unblocks = true → s.phase.unblocks = true ∨ s.committed = true ∨ s.issued = 0)
    (hswitched : phase = .moving → s.committed = true) (hstays : s.phase.unblocks = true → phase.unblocks = true)
    (hends : ∀ p, phase.endsOn = some p → p = s.decided change) : Sound change (s.goTo phase) := by
  refine ⟨fun hb => h.quiet (hquiet hb), fun hu => ?_, hswitched, h.serves, fun hne => hstays (h.begun hne), ?_, hends⟩
  · rcases hfixed hu with hold | hnow
    · exact h.fixed hold
    · exact hnow
  · intro own hown p hp
    obtain ⟨heq, hsince⟩ := h.acted own hown p hp
    exact ⟨heq, hsince.imp_right hstays⟩

theorem unblocks_of_endsOn {phase : Phase} {p : String} (h : phase.endsOn = some p) : phase.unblocks = true := by
  cases phase with
  | ending | finished => rfl
  | blocking | reading | copying | failing | switching | appending | rereading | moving | unblocking | interrupted |
    deciding => cases h

/-- A step of the run before its first `mesh.unblock`. -/
theorem Sound.early {change : StorageChange} {s : ChangeRun} (h : Sound change s) {old phase : Phase} (hold : s.phase = old)
    (hearly : old.unblocks = false) (hphase : phase.unblocks = false)
    (hquiet : phase.beforeSwitch = true → old.beforeSwitch = true) (hswitched : phase = .moving → s.committed = true) :
    Sound change (s.goTo phase) := by
  subst hold
  refine h.goTo hquiet (fun hu => ?_) hswitched (fun hu => ?_) fun p hp => ?_
  · rw [hphase] at hu
    cases hu
  · rw [hearly] at hu
    cases hu
  · rw [unblocks_of_endsOn hp] at hphase
    cases hphase

/-- A step of the run from its first `mesh.unblock` on. -/
theorem Sound.late {change : StorageChange} {s : ChangeRun} (h : Sound change s) {phase : Phase} (hphase : phase.unblocks = true)
    (hfixed : s.phase.unblocks = true ∨ s.committed = true ∨ s.issued = 0)
    (hends : ∀ p, phase.endsOn = some p → p = s.decided change) : Sound change (s.goTo phase) := by
  refine h.goTo (fun hb => ?_) (fun _ => hfixed) (fun hm => ?_) (fun _ => hphase) hends
  · cases phase with
    | unblocking | interrupted | deciding | ending | finished => cases hb
    | _ => cases hphase
  · subst hm
    cases hphase

theorem Sound.moveOwn {change : StorageChange} {s : ChangeRun} (h : Sound change s) {m : Nat} {own : StorageMoves}
    (hm : s.primaries[m]? = some own) {provider : String} (mover : Except String Unit)
    (hprovider : provider = s.decided change) (hsince : s.committed = true ∨ s.phase.unblocks = true) :
    Sound change { s with primaries := s.primaries.set m (own.moveOwn change.changeId provider mover).1 } := by
  refine ⟨h.quiet, h.fixed, h.switched, h.serves, h.begun, fun other hother p hp => ?_, h.ends⟩
  rcases List.mem_or_eq_of_mem_set hother with hother | rfl
  · exact h.acted other hother p hp
  · rcases StorageMoves.moveOwn_acted hp with hp | rfl
    · exact h.acted own (List.mem_of_getElem? hm) p hp
    · exact ⟨hprovider, hsince⟩

theorem Sound.setServe {change : StorageChange} {s : ChangeRun} (h : Sound change s) {k m : Nat} {old stage : ServeStage}
    (hk : s.serves[k]? = some (m, old)) (hstage : ∀ p, stage.provider = some p → p = s.decided change) :
    Sound change (s.setServe k m stage) := by
  have hbegun : s.phase.unblocks = true := h.begun (List.ne_nil_of_mem (List.mem_of_getElem? hk))
  refine ⟨h.quiet, h.fixed, h.switched, fun serve hserve p hp => ?_, fun _ => hbegun, h.acted, h.ends⟩
  rcases List.mem_or_eq_of_mem_set hserve with hserve | rfl
  · exact h.serves serve hserve p hp
  · exact hstage p hp

/-- An append lands: before the event stood nobody had read it, or it cannot land any more. -/
theorem Sound.lands {change : StorageChange} {s : ChangeRun} (h : Sound change s) (hissued : 0 < s.issued) :
    Sound change { s with committed := true, issued := s.issued - 1 } := by
  cases hcommitted : s.committed with
  | true =>
    have hsame : ({ s with committed := true, issued := s.issued - 1 } : ChangeRun).decided change = s.decided change := by
      unfold decided
      rw [hcommitted]
    refine ⟨fun hb => ?_, fun _ => .inl rfl, fun _ => rfl, ?_, h.begun, ?_, ?_⟩
    · have hnone := h.quiet hb
      show s.issued - 1 = 0
      omega
    · rw [hsame]
      exact h.serves
    · rw [hsame]
      exact fun own hown p hp => ⟨(h.acted own hown p hp).1, .inl rfl⟩
    · rw [hsame]
      exact h.ends
  | false =>
    have hnot : s.phase.unblocks = false := by
      cases hu : s.phase.unblocks with
      | false => rfl
      | true =>
        rcases h.fixed hu with hc | hnone
        · rw [hcommitted] at hc
          cases hc
        · omega
    have hserves : s.serves = [] := by
      by_contra hne
      rw [h.begun hne] at hnot
      cases hnot
    refine ⟨fun hb => ?_, fun _ => .inl rfl, fun _ => rfl, ?_, h.begun, ?_, ?_⟩
    · have hnone := h.quiet hb
      show s.issued - 1 = 0
      omega
    · intro serve hserve
      have hserve : serve ∈ s.serves := hserve
      rw [hserves] at hserve
      cases hserve
    · intro own hown p hp
      rcases (h.acted own hown p hp).2 with hc | hu
      · rw [hcommitted] at hc
        cases hc
      · rw [hnot] at hu
        cases hu
    · intro p hp
      rw [unblocks_of_endsOn hp] at hnot
      cases hnot

theorem Sound.send {change : StorageChange} {s : ChangeRun} (h : Sound change s) (m : Nat) (hu : s.phase.unblocks = true) :
    Sound change { s with serves := s.serves ++ [(m, .began)] } := by
  refine ⟨h.quiet, h.fixed, h.switched, fun serve hserve p hp => ?_, fun _ => hu, h.acted, h.ends⟩
  rcases List.mem_append.mp hserve with hserve | hserve
  · exact h.serves serve hserve p hp
  · obtain rfl := List.mem_singleton.mp hserve
    cases hp

/-- The append is issued once the copy is there, before any `mesh.unblock`. -/
theorem Sound.issues {change : StorageChange} {s : ChangeRun} (h : Sound change s) (hphase : s.phase = .switching) :
    Sound change { s with phase := .appending, issued := s.issued + 1 } := by
  have happending : Sound change (s.goTo .appending) := h.early hphase rfl rfl (fun hb => by cases hb) fun hm => by cases hm
  exact ⟨fun hb => (by cases hb), fun hu => (by cases hu), happending.switched, happending.serves, happending.begun,
    happending.acted, happending.ends⟩

theorem Sound.replaced {change : StorageChange} {s : ChangeRun} (h : Sound change s) (m : Nat) (provider : String) :
    Sound change { s with primaries := s.primaries.set m ⟨[], none, provider, true⟩ } := by
  refine ⟨h.quiet, h.fixed, h.switched, h.serves, h.begun, fun own hown p hp => ?_, h.ends⟩
  rcases List.mem_or_eq_of_mem_set hown with hown | rfl
  · exact h.acted own hown p hp
  · cases hp

theorem Sound.step {change : StorageChange} {s : ChangeRun} (h : Sound change s) (m : DecisionMove) (hok : s.Clear m) :
    Sound change (s.step change m) := by
  cases m with
  | meshesBlocked =>
    dsimp only [ChangeRun.step]
    split
    next hphase => exact h.early hphase rfl rfl (fun _ => rfl) fun hm => by cases hm
    next => exact h
  | readsCommit answered =>
    dsimp only [ChangeRun.step]
    split
    next hphase =>
      split
      next hread => exact h.early hphase rfl rfl (fun hb => by cases hb) fun _ => (Bool.and_eq_true_iff.mp hread).2
      next => exact h.early hphase rfl rfl (fun _ => rfl) fun hm => by cases hm
    next => exact h
  | copied =>
    dsimp only [ChangeRun.step]
    split
    next hphase => exact h.early hphase rfl rfl (fun hb => by cases hb) fun hm => by cases hm
    next => exact h
  | copyFails why =>
    dsimp only [ChangeRun.step]
    split
    next hphase => exact h.early hphase rfl rfl (fun _ => rfl) fun hm => by cases hm
    next => exact h
  | decidesFailure answered =>
    dsimp only [ChangeRun.step]
    split
    next why hphase =>
      split
      next =>
        split
        next => exact h.early hphase rfl rfl (fun hb => by cases hb) fun hm => by cases hm
        next =>
          -- Nothing was appended before the copy ended.
          have hquiet : s.issued = 0 := h.quiet (by rw [hphase]; rfl)
          exact h.late rfl (.inr (.inr hquiet)) fun p hp => by cases hp
      next => exact h
    next => exact h
  | insertReads answered =>
    dsimp only [ChangeRun.step]
    split
    next hphase =>
      split
      next =>
        split
        next hcommitted => exact h.early hphase rfl rfl (fun hb => by cases hb) fun _ => hcommitted
        next => exact h.issues hphase
      next => exact h.early hphase rfl rfl (fun hb => by cases hb) fun hm => by cases hm
    next => exact h
  | appendAnswers ok =>
    dsimp only [ChangeRun.step]
    split
    next hphase =>
      split
      next =>
        split
        next hcommitted => exact h.early hphase rfl rfl (fun hb => by cases hb) fun _ => hcommitted
        next => exact h
      next => exact h.early hphase rfl rfl (fun hb => by cases hb) fun hm => by cases hm
    next => exact h
  | rereads answered =>
    dsimp only [ChangeRun.step]
    split
    next hphase =>
      split
      next hread => exact h.early hphase rfl rfl (fun hb => by cases hb) fun _ => (Bool.and_eq_true_iff.mp hread).2
      next => exact h.early hphase rfl rfl (fun hb => by cases hb) fun hm => by cases hm
    next => exact h
  | movesOwn mover =>
    dsimp only [ChangeRun.step]
    split
    next own hphase hown =>
      have hcommitted := h.switched hphase
      have hmoved := h.moveOwn hown mover (decided_eq_new.mpr hcommitted).symm (.inl hcommitted)
      split
      next own' _ heq =>
        have hown' : (own.moveOwn change.changeId change.new mover).1 = own' := by rw [heq]
        rw [hown'] at hmoved
        exact hmoved.late rfl (.inr (.inl hcommitted)) fun p hp => by cases hp
      next => exact h
    next => exact h
  | meshesUnblocked =>
    dsimp only [ChangeRun.step]
    split
    next hphase => exact h.late rfl (.inl (by rw [hphase]; rfl)) fun p hp => by cases hp
    next hphase => exact h.late rfl (.inl (by rw [hphase]; rfl)) fun p hp => by cases hp
    next => exact h
  | interrupts =>
    dsimp only [ChangeRun.step]
    split
    next hsteps => exact h.late rfl (.inr (hok hsteps)) fun p hp => by cases hp
    next => exact h
  | decides answered =>
    dsimp only [ChangeRun.step]
    split
    next hphase =>
      split
      next => exact h.late rfl (.inl (by rw [hphase]; rfl)) fun p hp => (Option.some.inj hp).symm
      next => exact h
    next => exact h
  | writesEnded =>
    dsimp only [ChangeRun.step]
    split
    next ended provider hphase =>
      refine h.late rfl (.inl (by rw [hphase]; rfl)) fun p hp => h.ends p ?_
      rw [hphase]
      exact hp
    next => exact h
  | lands =>
    dsimp only [ChangeRun.step]
    split
    next hissued => exact h.lands hissued
    next => exact h
  | lost =>
    have hless : s.issued = 0 → s.issued - 1 = 0 := by omega
    exact ⟨fun hb => hless (h.quiet hb), fun hu => (h.fixed hu).imp_right hless, h.switched, h.serves, h.begun, h.acted, h.ends⟩
  | sends m =>
    dsimp only [ChangeRun.step]
    split
    next hphase => exact h.send m (by rw [hphase]; rfl)
    next hphase => exact h.send m (by rw [hphase]; rfl)
    next => exact h
  | serveReads k answered =>
    dsimp only [ChangeRun.step]
    split
    next m hk =>
      refine h.setServe hk fun p hp => ?_
      cases answered with
      | true => exact (Option.some.inj hp).symm
      | false => cases hp
    next => exact h
  | serveMoves k mover =>
    dsimp only [ChangeRun.step]
    split
    next m provider hk =>
      have hmem := List.mem_of_getElem? hk
      have hprovider := h.serves _ hmem provider rfl
      have hbegun := h.begun (List.ne_nil_of_mem hmem)
      split
      next own hown =>
        have hmoved := h.moveOwn hown mover hprovider (.inr hbegun)
        split
        next own' _ heq =>
          have hown' : (own.moveOwn change.changeId provider mover).1 = own' := by rw [heq]
          rw [hown'] at hmoved
          refine hmoved.setServe hk fun p hp => ?_
          rw [← Option.some.inj hp]
          exact hprovider
        next => exact h.setServe hk fun p hp => by cases hp
      next => exact h
    next => exact h
  | serveAnswers k =>
    dsimp only [ChangeRun.step]
    split
    next m provider hk =>
      refine h.setServe hk fun p hp => ?_
      rw [← Option.some.inj hp]
      exact h.serves _ (List.mem_of_getElem? hk) provider rfl
    next => exact h
  | replaced m provider => exact h.replaced m provider

theorem sound_start (change : StorageChange) (committed : Bool) {primaries : List StorageMoves}
    (hfresh : ∀ own ∈ primaries, ¬ own.HasActed change.changeId) : Sound change (start committed primaries) :=
  ⟨fun _ => rfl, fun hu => (by cases hu), fun hm => (by cases hm), fun _ hserve => (by cases hserve), fun hne => absurd rfl hne,
    fun own hown p hp => absurd ⟨p, hp⟩ (hfresh own hown), fun p hp => by cases hp⟩

/-- Along every run of a change whose steps are dropped only while its committed event stands or no append of it is still to
land, one provider is decided. -/
theorem one_decision (change : StorageChange) (committed : Bool) {primaries : List StorageMoves}
    (hfresh : ∀ own ∈ primaries, ¬ own.HasActed change.changeId) {moves : List DecisionMove}
    (hok : RunOk (ChangeRun.step change) Clear (start committed primaries) moves) :
    (moves.foldl (ChangeRun.step change) (start committed primaries)).OneDecision change :=
  (hok.invariant (fun _ m h hm => h.step m hm) (sound_start change committed hfresh)).oneDecision

section Runs

def toFile : StorageChange := ⟨"c1", "memory", "file", by decide⟩

def onMemory : StorageMoves := ⟨[], some "c1", "memory", true⟩

/-- The copy, the append and its landing, then both mesh-primaries unblocked. -/
def switchedRun : List DecisionMove :=
  [.meshesBlocked, .readsCommit true, .copied, .insertReads true, .lands, .appendAnswers true, .movesOwn (.ok ()), .sends 0,
    .serveReads 0 true, .serveMoves 0 (.ok ()), .serveAnswers 0, .sends 1, .serveReads 1 true, .serveMoves 1 (.ok ()),
    .serveAnswers 1, .meshesUnblocked, .decides true, .writesEnded]

theorem one_decision_switched :
    let run := switchedRun.foldl (ChangeRun.step toFile) (start false [onMemory, onMemory])
    run.serves = [(0, .unblocked "file"), (1, .unblocked "file")] ∧ run.phase = .finished .complete "file" ∧
      run.OneDecision toFile :=
  ⟨by decide, by decide, one_decision toFile false (by
    intro own hown
    obtain rfl : own = onMemory := by simpa using hown
    rintro ⟨p, hp⟩
    cases hp) (by simp [RunOk, switchedRun, Clear])⟩

/-- The steps are dropped while the append is awaited; it lands between two mesh-primaries' reads. -/
def splitRun : List DecisionMove :=
  [.meshesBlocked, .readsCommit true, .copied, .insertReads true, .interrupts, .sends 0, .serveReads 0 true,
    .serveMoves 0 (.ok ()), .serveAnswers 0, .lands, .sends 1, .serveReads 1 true, .serveMoves 1 (.ok ()), .serveAnswers 1,
    .meshesUnblocked, .decides true, .writesEnded]

theorem two_decisions :
    let run := splitRun.foldl (ChangeRun.step toFile) (start false [onMemory, onMemory])
    run.serves = [(0, .unblocked "memory"), (1, .unblocked "file")] ∧
      run.phase = .finished (.failed "interrupted by fabric.delete") "file" ∧ ¬ run.OneDecision toFile := by
  refine ⟨by decide, by decide, ?_⟩
  rintro ⟨provider, hserves, -⟩
  have hfirst := hserves 0 "memory" (by decide)
  have hsecond := hserves 1 "file" (by decide)
  rw [← hfirst] at hsecond
  exact absurd hsecond (by decide)

end Runs

end ChangeRun

end DistributedMesh.Storage
