import DistributedMesh.CommandView

namespace DistributedMesh.Commands

open GuardedRuns

variable {Op : Type}

namespace Task

/-- The key of a lifecycle carry, mesh join or rejoin that is opened or sent and has not ended. -/
def carries : Task Op → Option (CommandKey Op)
  | .command .storage _ _ => none
  | .command _ key .opened => some key
  | .command _ key .sent => some key
  | _ => none

/-- Sent and not yet ended; a storage change's own commands apart. -/
def inFlight : Task Op → Bool
  | .command kind _ .sent => kind != .storage
  | _ => false

/-- A `block` call that read the open set empty and has not returned. -/
def passed : Task Op → Bool
  | .block (.emptied _) => true
  | .block (.turn _) => true
  | _ => false

/-- A `block` call that holds the rows and has not returned. -/
def holdingRows : Task Op → Bool
  | .block .held => true
  | .block (.waiting _) => true
  | .block (.emptied _) => true
  | .block (.turn _) => true
  | _ => false

def hasTurn : Task Op → Bool
  | .rowWriter .turn => true
  | .rowWriter .writing => true
  | .block (.turn _) => true
  | _ => false

def writing : Task Op → Bool
  | .rowWriter .writing => true
  | _ => false

/-- A task that has not begun. -/
def Unbegun : Task Op → Prop
  | .command _ _ stage => stage = .asked
  | .rowWriter stage => stage = .waiting
  | .block stage => stage = .called
  | .releaseRows done => done = false
  | .unblock stage => stage = .called

theorem carries_of_inFlight {task : Task Op} (h : task.inFlight = true) : ∃ key, task.carries = some key := by
  cases task with
  | command kind key stage =>
    cases stage <;> cases kind <;> first | exact ⟨key, rfl⟩ | cases h
  | rowWriter | block | releaseRows | unblock => cases h

end Task

namespace System

/-- A `block` call has read the open set empty and no `unblock` came since its return. -/
def Passed (s : System Op) : Prop := s.commandsBarred = true ∨ ∃ task ∈ s.tasks, task.passed = true

instance (s : System Op) : Decidable s.Passed := inferInstanceAs (Decidable (_ ∨ _))

/-- No other command that has not ended has its key. -/
def AloneUnder (s : System Op) (i : Nat) (key : CommandKey Op) : Prop :=
  ∀ j < s.tasks.length, j ≠ i → s.tasks[j]?.bind Task.carries ≠ some key

instance [DecidableEq Op] (s : System Op) (i : Nat) (key : CommandKey Op) : Decidable (s.AloneUnder i key) :=
  inferInstanceAs (Decidable (∀ j < s.tasks.length, j ≠ i → s.tasks[j]?.bind Task.carries ≠ some key))

/-- A command's next step neither opens its key once a `block` call has read the open set empty, nor closes a key that another
command not yet ended has; a release of the rows finds no `block` call under way that holds them. -/
def NextClear (s : System Op) (i : Nat) : Task Op → Prop
  | .command kind key stage => (stage = .ready → kind = .storage ∨ ¬ s.Passed) ∧ (stage = .ended → s.AloneUnder i key)
  | .releaseRows done => done = false → ∀ task ∈ s.tasks, task.holdingRows = false
  | .unblock stage => stage = .called → ∀ task ∈ s.tasks, task.holdingRows = false
  | .rowWriter _ => True
  | .block _ => True

/-- The guard of a storage command that is dropped closes no key that another command not yet ended has. -/
def DropClear (s : System Op) (i : Nat) : Task Op → Prop
  | .command kind key stage => kind = .storage → stage = .opened ∨ stage = .sent → s.AloneUnder i key
  | _ => True

def Undisturbed (s : System Op) : Move → Prop
  | .next i => ∀ task ∈ s.tasks[i]?, s.NextClear i task
  | .drop i => ∀ task ∈ s.tasks[i]?, s.DropClear i task
  | .unsent _ => True

/-- While a `block` that returned stands, no command is in flight and no row writer has a turn it may write under. -/
def Barrier (s : System Op) : Prop :=
  (s.commandsBarred = true → ∀ task ∈ s.tasks, task.inFlight = false) ∧
    (s.rowsBarred = true → ∀ task ∈ s.tasks, task.writing = false)

structure CommandsGuarded (s : System Op) : Prop where
  opened : ∀ task ∈ s.tasks, ∀ key, task.carries = some key → key ∈ s.view.opened
  passed : s.Passed → ∀ task ∈ s.tasks, task.carries = none

structure RowsGuarded (s : System Op) : Prop where
  held : ∀ task ∈ s.tasks, task.holdingRows = true → s.view.rowsHeld = true
  barred_held : s.rowsBarred = true → s.view.rowsHeld = true
  turn : ∀ i task, s.tasks[i]? = some task → task.hasTurn = true → s.view.rowWrites = some i
  barred : s.rowsBarred = true → ∀ task ∈ s.tasks, task.writing = false

theorem mem_tasks {s : System Op} {i : Nat} {task : Task Op} (hi : s.tasks[i]? = some task) : task ∈ s.tasks :=
  List.mem_of_getElem? hi

/-- A step that only moves one task on, and brings no key of its own. -/
theorem CommandsGuarded.put {s t : System Op} (h : CommandsGuarded s) {i : Nat} {old new : Task Op}
    (hi : s.tasks[i]? = some old) (htasks : t.tasks = s.tasks.set i new) (hopened : t.view.opened = s.view.opened)
    (hcarries : new.carries = none ∨ new.carries = old.carries)
    (hbarred : t.commandsBarred = true → s.commandsBarred = true ∨ old.passed = true)
    (hpassed : new.passed = true → old.passed = true) : CommandsGuarded t := by
  have hold := mem_tasks hi
  have hback : t.Passed → s.Passed := by
    rintro (hb | ⟨task, hm, hp⟩)
    · exact (hbarred hb).imp_right fun hp => ⟨old, hold, hp⟩
    · rw [htasks] at hm
      rcases List.mem_or_eq_of_mem_set hm with hm | rfl
      · exact .inr ⟨task, hm, hp⟩
      · exact .inr ⟨old, hold, hpassed hp⟩
  constructor
  · rw [hopened, htasks]
    refine forall_mem_set h.opened fun key hkey => ?_
    rcases hcarries with hnone | hsame
    · rw [hnone] at hkey
      cases hkey
    · exact h.opened old hold key (hsame ▸ hkey)
  · intro hp
    rw [htasks]
    refine forall_mem_set (h.passed (hback hp)) ?_
    rcases hcarries with hnone | hsame
    · exact hnone
    · rw [hsame]
      exact h.passed (hback hp) old hold

/-- A step that leaves the rows as they are, and gives its task no turn it did not have. -/
theorem RowsGuarded.put {s t : System Op} (h : RowsGuarded s) {i : Nat} {old new : Task Op}
    (hi : s.tasks[i]? = some old) (htasks : t.tasks = s.tasks.set i new) (hheld : t.view.rowsHeld = s.view.rowsHeld)
    (hwrites : t.view.rowWrites = s.view.rowWrites) (hbarred : t.rowsBarred = s.rowsBarred)
    (hholding : new.holdingRows = true → old.holdingRows = true) (hturn : new.hasTurn = true → old.hasTurn = true)
    (hwriting : new.writing = true → old.writing = true) : RowsGuarded t := by
  have hold := mem_tasks hi
  constructor
  · rw [hheld, htasks]
    exact forall_mem_set h.held fun hr => h.held old hold (hholding hr)
  · intro hb
    rw [hheld]
    exact h.barred_held (hbarred ▸ hb)
  · rw [hwrites, htasks]
    exact forall_getElem?_set (fun j task _ => h.turn j task) fun ht => h.turn i old hi (hturn ht)
  · intro hb
    rw [htasks]
    refine forall_mem_set (h.barred (hbarred ▸ hb)) ?_
    have hold' := h.barred (hbarred ▸ hb) old hold
    cases hw : new.writing with
    | false => rfl
    | true =>
      rw [hwriting hw] at hold'
      cases hold'

theorem AloneUnder.carries_ne {s : System Op} {i j : Nat} {key : CommandKey Op} {task : Task Op} (h : s.AloneUnder i key)
    (hj : s.tasks[j]? = some task) (hne : j ≠ i) : task.carries ≠ some key := by
  have hlt : j < s.tasks.length := (List.getElem?_eq_some_iff.mp hj).1
  have hother := h j hlt hne
  rw [hj] at hother
  exact hother

section

variable {s : System Op} {i : Nat}

theorem mem_openKey [DecidableEq Op] (view : CommandView Op) (key k : CommandKey Op) :
    k ∈ (view.openKey key).opened ↔ k = key ∨ k ∈ view.opened := by
  unfold CommandView.openKey
  split
  next hmem =>
    constructor
    · exact .inr
    · rintro (rfl | hk)
      · exact hmem
      · exact hk
  next => exact List.mem_cons

theorem mem_close [DecidableEq Op] (view : CommandView Op) (key k : CommandKey Op) :
    k ∈ (view.close key).opened ↔ k ∈ view.opened ∧ k ≠ key := by
  simp [CommandView.close]

theorem Passed.of_put {view : CommandView Op} {task : Task Op} (hp : ((s.withView view).put i task).Passed)
    (htask : task.passed = false) : s.Passed := by
  rcases hp with hb | ⟨other, hother, hpassed⟩
  · exact .inl hb
  · rcases List.mem_or_eq_of_mem_set hother with hother | rfl
    · exact .inr ⟨other, hother, hpassed⟩
    · rw [htask] at hpassed
      cases hpassed

theorem CommandsGuarded.openKey [DecidableEq Op] (h : CommandsGuarded s) {kind : CommandKind} {key : CommandKey Op}
    (hok : kind = .storage ∨ ¬ s.Passed) :
    CommandsGuarded ((s.withView (s.view.openKey key)).put i (.command kind key .opened)) := by
  constructor
  · intro task hm k hk
    refine (mem_openKey s.view key k).mpr ?_
    rcases List.mem_or_eq_of_mem_set hm with hm | rfl
    · exact .inr (h.opened task hm k hk)
    · cases kind with
      | storage => cases hk
      | lifecycle | meshJoin | rejoin =>
        cases hk
        exact .inl rfl
  · intro hp task hm
    have hback : s.Passed := hp.of_put rfl
    rcases List.mem_or_eq_of_mem_set hm with hm | rfl
    · exact h.passed hback task hm
    · rcases hok with rfl | hnot
      · rfl
      · exact absurd hback hnot

theorem CommandsGuarded.close [DecidableEq Op] (h : CommandsGuarded s) {kind : CommandKind} {key : CommandKey Op}
    (hok : s.AloneUnder i key) :
    CommandsGuarded ((s.withView (s.view.close key)).put i (.command kind key .finished)) := by
  have hover : (Task.command kind key .finished).carries = none := by
    cases kind <;> rfl
  constructor
  · intro task hm k hk
    obtain ⟨j, hj⟩ := List.mem_iff_getElem?.mp hm
    obtain ⟨rfl, rfl⟩ | ⟨hne, hj⟩ := getElem?_of_set hj
    · rw [hover] at hk
      cases hk
    · refine (mem_close s.view key k).mpr ⟨h.opened task (mem_tasks hj) k hk, ?_⟩
      rintro rfl
      exact hok.carries_ne hj hne hk
  · intro hp task hm
    have hback : s.Passed := hp.of_put rfl
    rcases List.mem_or_eq_of_mem_set hm with hm | rfl
    · exact h.passed hback task hm
    · exact hover

/-- A `block` call that reads the open set empty finds no command that has not ended. -/
theorem CommandsGuarded.emptied (h : CommandsGuarded s) {inFlight : Nat} (hempty : s.view.opened = []) :
    CommandsGuarded (s.put i (.block (.emptied inFlight))) := by
  have hnone : ∀ task ∈ (s.put i (.block (.emptied inFlight))).tasks, task.carries = none := by
    refine forall_mem_set (fun task hm => ?_) rfl
    cases hcarries : task.carries with
    | none => rfl
    | some key =>
      have hopened := h.opened task hm key hcarries
      rw [hempty] at hopened
      cases hopened
  constructor
  · intro task hm key hkey
    rw [hnone task hm] at hkey
    cases hkey
  · exact fun _ => hnone

theorem RowsGuarded.lock (h : RowsGuarded s) {new : Task Op} (hfree : s.view.rowWrites = none)
    (hholding : new.holdingRows = true → s.view.rowsHeld = true) (hwriting : new.writing = false) :
    RowsGuarded ((s.withView { s.view with rowWrites := some i }).put i new) := by
  refine ⟨forall_mem_set h.held hholding, h.barred_held, forall_getElem?_set (fun j task _ hj ht => ?_) fun _ => rfl,
    fun hb => forall_mem_set (h.barred hb) hwriting⟩
  have hother := h.turn j task hj ht
  rw [hfree] at hother
  cases hother

theorem RowsGuarded.unlock (h : RowsGuarded s) {old new : Task Op} (hi : s.tasks[i]? = some old)
    (hturn : old.hasTurn = true) (hnone : new.hasTurn = false) (hholding : new.holdingRows = false)
    (hwriting : new.writing = false) : RowsGuarded ((s.withView { s.view with rowWrites := none }).put i new) := by
  have hmine := h.turn i old hi hturn
  refine ⟨forall_mem_set h.held fun hr => ?_, h.barred_held, forall_getElem?_set (fun j task hne hj ht => ?_) fun ht => ?_,
    fun hb => forall_mem_set (h.barred hb) hwriting⟩
  · rw [hholding] at hr
    cases hr
  · have hother := h.turn j task hj ht
    rw [hmine] at hother
    exact absurd (Option.some.inj hother).symm hne
  · rw [hnone] at ht
    cases ht

theorem RowsGuarded.release (h : RowsGuarded s) {old new : Task Op} (hi : s.tasks[i]? = some old)
    (hok : ∀ task ∈ s.tasks, task.holdingRows = false) (hholding : new.holdingRows = false)
    (hturn : new.hasTurn = true → old.hasTurn = true) : RowsGuarded (s.rowsRelease.put i new) := by
  have hnone : ∀ task ∈ s.tasks.set i new, task.holdingRows = false := forall_mem_set hok hholding
  refine ⟨fun task hm hr => ?_, fun hb => (by cases hb),
    forall_getElem?_set (fun j task _ => h.turn j task) fun ht => h.turn i old hi (hturn ht), fun hb => by cases hb⟩
  rw [hnone task hm] at hr
  cases hr

theorem RowsGuarded.hold (h : RowsGuarded s) {old new : Task Op} (hi : s.tasks[i]? = some old)
    (hturn : new.hasTurn = true → old.hasTurn = true) (hwriting : new.writing = false) :
    RowsGuarded ((s.withView { s.view with rowsHeld := true }).put i new) := by
  exact ⟨fun _ _ _ => rfl, fun _ => rfl, forall_getElem?_set (fun j task _ => h.turn j task) fun ht => h.turn i old hi (hturn ht),
    fun hb => forall_mem_set (h.barred hb) hwriting⟩

/-- A `block` call returns from its turn: no row writer has one. -/
theorem RowsGuarded.returns (h : RowsGuarded s) {inFlight : Nat} (hi : s.tasks[i]? = some (.block (.turn inFlight))) :
    RowsGuarded (s.nextBlock i (.turn inFlight)) := by
  have hmine := h.turn i _ hi rfl
  have hreleased : RowsGuarded ((s.withView { s.view with rowWrites := none }).put i (.block (.returned inFlight))) :=
    h.unlock hi rfl rfl rfl rfl
  have hnone : ∀ task ∈ s.tasks, task.writing = false := by
    intro task hm
    obtain ⟨j, hj⟩ := List.mem_iff_getElem?.mp hm
    cases hw : task.writing with
    | false => rfl
    | true =>
      have hturn : task.hasTurn = true := by
        cases task with
        | rowWriter stage => cases stage <;> first | rfl | cases hw
        | command | block | releaseRows | unblock => cases hw
      have hother := h.turn j task hj hturn
      rw [hmine] at hother
      obtain rfl := Option.some.inj hother
      rw [hi] at hj
      cases hj
      cases hw
  refine ⟨hreleased.held, ?_, hreleased.turn, ?_⟩
  · intro _
    exact h.held _ (mem_tasks hi) rfl
  · exact fun _ => forall_mem_set hnone rfl

/-- The command at `i` takes a step: its stage changes, and of the view at most the open set. -/
def CommandMoves (s t : System Op) (i : Nat) (kind : CommandKind) (key : CommandKey Op) : Prop :=
  t = s ∨ ∃ view after, view.rowsHeld = s.view.rowsHeld ∧ view.rowWrites = s.view.rowWrites ∧
    t = (s.withView view).put i (.command kind key after)

theorem CommandMoves.put {kind : CommandKind} {key : CommandKey Op} (after : CommandStage) :
    CommandMoves s (s.put i (.command kind key after)) i kind key :=
  .inr ⟨s.view, after, rfl, rfl, rfl⟩

theorem CommandsGuarded.nextRowWriter (h : CommandsGuarded s) {stage : RowStage} (hi : s.tasks[i]? = some (.rowWriter stage)) :
    CommandsGuarded (s.nextRowWriter i stage) := by
  cases stage with
  | waiting =>
    dsimp only [System.nextRowWriter]
    split
    next => exact h.put hi rfl rfl (.inl rfl) .inl id
    next => exact h
  | turn =>
    dsimp only [System.nextRowWriter]
    split
    next => exact h.put hi rfl rfl (.inl rfl) .inl id
    next => exact h.put hi rfl rfl (.inl rfl) .inl id
  | writing => exact h.put hi rfl rfl (.inl rfl) .inl id
  | finished => exact h

theorem CommandsGuarded.nextBlock (h : CommandsGuarded s) {stage : BlockStage} (hi : s.tasks[i]? = some (.block stage)) :
    CommandsGuarded (s.nextBlock i stage) := by
  cases stage with
  | called => exact h.put hi rfl rfl (.inl rfl) .inl id
  | marked => exact h.put hi rfl rfl (.inl rfl) .inl id
  | held => exact h.put hi rfl rfl (.inl rfl) .inl id
  | waiting inFlight =>
    dsimp only [System.nextBlock]
    split
    next hempty => exact h.emptied (List.isEmpty_iff.mp hempty)
    next => exact h
  | emptied inFlight =>
    dsimp only [System.nextBlock]
    split
    next => exact h.put hi rfl rfl (.inl rfl) .inl fun _ => rfl
    next => exact h
  -- From here the barrier stands; the call had passed its check already.
  | turn inFlight => exact h.put hi rfl rfl (.inl rfl) (fun _ => .inr rfl) fun _ => rfl
  | returned inFlight => exact h

theorem RowsGuarded.commandMoves (h : RowsGuarded s) {t : System Op} {kind : CommandKind} {key : CommandKey Op}
    {stage : CommandStage} (hi : s.tasks[i]? = some (.command kind key stage)) (ht : CommandMoves s t i kind key) : RowsGuarded t := by
  obtain rfl | ⟨view, after, hheld, hwrites, rfl⟩ := ht
  · exact h
  · exact h.put hi rfl hheld hwrites rfl (fun hr => by cases hr) (fun ht => by cases ht) fun hw => by cases hw

theorem RowsGuarded.nextRowWriter (h : RowsGuarded s) {stage : RowStage} (hi : s.tasks[i]? = some (.rowWriter stage)) :
    RowsGuarded (s.nextRowWriter i stage) := by
  cases stage with
  | waiting =>
    dsimp only [System.nextRowWriter]
    split
    next hfree => exact h.lock hfree (fun hr => by cases hr) rfl
    next => exact h
  | turn =>
    dsimp only [System.nextRowWriter]
    split
    next => exact h.unlock hi rfl rfl rfl rfl
    next hfree =>
      -- The rows are free, so no barrier stands that the writer could break.
      have hnot : s.rowsBarred ≠ true := fun hb => hfree (h.barred_held hb)
      exact ⟨forall_mem_set h.held fun hr => (by cases hr), h.barred_held,
        forall_getElem?_set (fun j task _ => h.turn j task) fun _ => h.turn i _ hi rfl, fun hb => absurd hb hnot⟩
  | writing => exact h.unlock hi rfl rfl rfl rfl
  | finished => exact h

theorem RowsGuarded.nextBlock (h : RowsGuarded s) {stage : BlockStage} (hi : s.tasks[i]? = some (.block stage)) :
    RowsGuarded (s.nextBlock i stage) := by
  cases stage with
  | called => exact h.put hi rfl rfl rfl rfl id id id
  | marked => exact h.hold hi id rfl
  | held => exact h.put hi rfl rfl rfl rfl (fun _ => rfl) id id
  | waiting inFlight =>
    dsimp only [System.nextBlock]
    split
    next => exact h.put hi rfl rfl rfl rfl (fun _ => rfl) id id
    next => exact h
  | emptied inFlight =>
    dsimp only [System.nextBlock]
    split
    next hfree => exact h.lock hfree (fun _ => h.held _ (mem_tasks hi) rfl) rfl
    next => exact h
  | turn inFlight => exact h.returns hi
  | returned inFlight => exact h

theorem guarded_start {tasks : List (Task Op)} (hunbegun : ∀ task ∈ tasks, task.Unbegun) (blocked rowsHeld : Bool) :
    CommandsGuarded (start blocked rowsHeld tasks) ∧ RowsGuarded (start blocked rowsHeld tasks) := by
  have hfresh : ∀ task ∈ tasks, task.carries = none ∧ task.holdingRows = false ∧ task.hasTurn = false := by
    intro task hm
    have hu := hunbegun task hm
    cases task with
    | command kind key stage =>
      obtain rfl : stage = .asked := hu
      cases kind <;> exact ⟨rfl, rfl, rfl⟩
    | rowWriter stage =>
      obtain rfl : stage = .waiting := hu
      exact ⟨rfl, rfl, rfl⟩
    | block stage =>
      obtain rfl : stage = .called := hu
      exact ⟨rfl, rfl, rfl⟩
    | releaseRows => exact ⟨rfl, rfl, rfl⟩
    | unblock => exact ⟨rfl, rfl, rfl⟩
  refine ⟨⟨?_, fun _ task hm => (hfresh task hm).1⟩, ?_, fun hb => (by cases hb), ?_, fun hb => by cases hb⟩
  · intro task hm key hkey
    rw [(hfresh task hm).1] at hkey
    cases hkey
  · intro task hm hr
    rw [(hfresh task hm).2.1] at hr
    cases hr
  · intro i task hi ht
    rw [(hfresh task (mem_tasks hi)).2.2] at ht
    cases ht

theorem barrier_of_guarded (hc : CommandsGuarded s) (hr : RowsGuarded s) : s.Barrier := by
  refine ⟨fun hb task hm => ?_, hr.barred⟩
  cases hflight : task.inFlight with
  | false => rfl
  | true =>
    obtain ⟨key, hkey⟩ := Task.carries_of_inFlight hflight
    rw [hc.passed (.inl hb) task hm] at hkey
    cases hkey

end

section Steps

variable [DecidableEq Op] {s : System Op} {i : Nat} {kind : CommandKind} {key : CommandKey Op} {stage : CommandStage}

theorem CommandMoves.close : CommandMoves s ((s.withView (s.view.close key)).put i (.command kind key .finished)) i kind key :=
  .inr ⟨s.view.close key, .finished, rfl, rfl, rfl⟩

theorem openKey_rows (view : CommandView Op) (key : CommandKey Op) :
    (view.openKey key).rowsHeld = view.rowsHeld ∧ (view.openKey key).rowWrites = view.rowWrites := by
  unfold CommandView.openKey
  split <;> exact ⟨rfl, rfl⟩

theorem nextCommand_moves : CommandMoves s (s.nextCommand i kind key stage) i kind key := by
  cases stage with
  | asked =>
    cases kind with
    | lifecycle =>
      dsimp only [nextCommand]
      split
      next => exact .inl rfl
      next => exact .put .ready
    | meshJoin => exact .put _
    | rejoin => exact .put .ready
    | storage => exact .put .ready
  | ready => exact .inr ⟨s.view.openKey key, .opened, (openKey_rows s.view key).1, (openKey_rows s.view key).2, rfl⟩
  | opened => exact .put .sent
  | sent => exact .put .ended
  | ended => exact .close
  | finished => exact .inl rfl

theorem dropCommand_moves : CommandMoves s (s.dropCommand i kind key stage) i kind key := by
  cases stage with
  | asked => exact .put .finished
  | ready =>
    dsimp only [dropCommand]
    split
    next => exact .inl rfl
    next => exact .put .finished
  | opened =>
    dsimp only [dropCommand]
    split
    next => exact .close
    next => exact .put .finished
  | sent =>
    dsimp only [dropCommand]
    split
    next => exact .close
    next => exact .put .finished
  | ended => exact .inl rfl
  | finished => exact .inl rfl

theorem CommandsGuarded.nextCommand (h : CommandsGuarded s) (hi : s.tasks[i]? = some (.command kind key stage))
    (hok : s.NextClear i (.command kind key stage)) : CommandsGuarded (s.nextCommand i kind key stage) := by
  cases stage with
  | asked =>
    cases kind with
    | lifecycle =>
      dsimp only [System.nextCommand]
      split
      next => exact h
      next => exact h.put hi rfl rfl (.inl rfl) .inl id
    | meshJoin =>
      dsimp only [System.nextCommand]
      split
      next => exact h.put hi rfl rfl (.inl rfl) .inl id
      next => exact h.put hi rfl rfl (.inl rfl) .inl id
    | rejoin => exact h.put hi rfl rfl (.inl rfl) .inl id
    | storage => exact h.put hi rfl rfl (.inl rfl) .inl id
  | ready => exact h.openKey (hok.1 rfl)
  | opened => exact h.put hi rfl rfl (.inr (by cases kind <;> rfl)) .inl id
  | sent => exact h.put hi rfl rfl (.inl (by cases kind <;> rfl)) .inl id
  | ended => exact h.close (hok.2 rfl)
  | finished => exact h

theorem CommandsGuarded.dropCommand (h : CommandsGuarded s) (hi : s.tasks[i]? = some (.command kind key stage))
    (hok : s.DropClear i (.command kind key stage)) : CommandsGuarded (s.dropCommand i kind key stage) := by
  have hover : CommandsGuarded (s.put i (.command kind key .finished)) :=
    h.put hi rfl rfl (.inl (by cases kind <;> rfl)) .inl id
  cases stage with
  | asked => exact hover
  | ready =>
    dsimp only [System.dropCommand]
    split
    next => exact h
    next => exact hover
  | opened =>
    dsimp only [System.dropCommand]
    split
    next hstorage => exact h.close (hok hstorage (.inl rfl))
    next => exact hover
  | sent =>
    dsimp only [System.dropCommand]
    split
    next hstorage => exact h.close (hok hstorage (.inr rfl))
    next => exact hover
  | ended => exact h
  | finished => exact h

theorem CommandsGuarded.step (h : CommandsGuarded s) (m : Move) (hok : s.Undisturbed m) : CommandsGuarded (s.step m) := by
  cases m with
  | next i =>
    dsimp only [System.step]
    cases hi : s.tasks[i]? with
    | none => exact h
    | some task =>
      cases task with
      | command kind key stage => exact h.nextCommand hi (hok _ hi)
      | rowWriter stage => exact h.nextRowWriter hi
      | block stage => exact h.nextBlock hi
      | releaseRows done =>
        cases done with
        | false => exact h.put hi rfl rfl (.inl rfl) .inl id
        | true => exact h
      | unblock stage =>
        cases stage with
        | called => exact h.put hi rfl rfl (.inl rfl) .inl id
        | rowsReleased => exact h.put hi rfl rfl (.inl rfl) (fun hb => by cases hb) id
        | finished => exact h
  | unsent i =>
    dsimp only [System.step]
    split
    next kind key hi => exact h.put hi rfl rfl (.inl (by cases kind <;> rfl)) .inl id
    next => exact h
  | drop i =>
    dsimp only [System.step]
    split
    next hi => exact h.dropCommand hi (hok _ hi)
    next => exact h

theorem RowsGuarded.step (h : RowsGuarded s) (m : Move) (hok : s.Undisturbed m) : RowsGuarded (s.step m) := by
  cases m with
  | next i =>
    dsimp only [System.step]
    cases hi : s.tasks[i]? with
    | none => exact h
    | some task =>
      have hclear := hok task hi
      cases task with
      | command kind key stage => exact h.commandMoves hi nextCommand_moves
      | rowWriter stage => exact h.nextRowWriter hi
      | block stage => exact h.nextBlock hi
      | releaseRows done =>
        cases done with
        | false => exact h.release hi (hclear rfl) rfl id
        | true => exact h
      | unblock stage =>
        cases stage with
        | called => exact h.release hi (hclear rfl) rfl id
        | rowsReleased => exact h.put hi rfl rfl rfl rfl id id id
        | finished => exact h
  | unsent i =>
    dsimp only [System.step]
    split
    next hi => exact h.commandMoves hi (.put .ended)
    next => exact h
  | drop i =>
    dsimp only [System.step]
    split
    next hi => exact h.commandMoves hi dropCommand_moves
    next => exact h

/-- `mesh.block` is a barrier along every run in which no command opens its key once a `block` call has read the open set
empty, none closes a key another command in flight has, and rows are released while no `block` call is under way. -/
theorem block_is_barrier {tasks : List (Task Op)} (hunbegun : ∀ task ∈ tasks, task.Unbegun) (blocked rowsHeld : Bool)
    {moves : List Move} (hok : RunOk step Undisturbed (start blocked rowsHeld tasks) moves) :
    (moves.foldl step (start blocked rowsHeld tasks)).Barrier := by
  have hguarded := hok.invariant (I := fun s => CommandsGuarded s ∧ RowsGuarded s)
    (fun s m h hm => ⟨h.1.step m hm, h.2.step m hm⟩) (guarded_start hunbegun blocked rowsHeld)
  exact barrier_of_guarded hguarded.1 hguarded.2

end Steps

section Runs

instance (s : System String) : Decidable s.Barrier := inferInstanceAs (Decidable (_ ∧ _))

instance (s : System String) (i : Nat) : ∀ task, Decidable (s.NextClear i task)
  | .command _ _ _ => inferInstanceAs (Decidable (_ ∧ _))
  | .releaseRows _ => inferInstanceAs (Decidable (_ → _))
  | .unblock _ => inferInstanceAs (Decidable (_ → _))
  | .rowWriter _ => inferInstanceAs (Decidable True)
  | .block _ => inferInstanceAs (Decidable True)

instance (s : System String) (i : Nat) : ∀ task, Decidable (s.DropClear i task)
  | .command _ _ _ => inferInstanceAs (Decidable (_ → _))
  | .rowWriter _ => inferInstanceAs (Decidable True)
  | .block _ => inferInstanceAs (Decidable True)
  | .releaseRows _ => inferInstanceAs (Decidable True)
  | .unblock _ => inferInstanceAs (Decidable True)

instance (s : System String) : ∀ m, Decidable (s.Undisturbed m)
  | .next i => inferInstanceAs (Decidable (∀ task ∈ s.tasks[i]?, s.NextClear i task))
  | .drop i => inferInstanceAs (Decidable (∀ task ∈ s.tasks[i]?, s.DropClear i task))
  | .unsent _ => inferInstanceAs (Decidable True)

def stopKey : CommandKey String := ⟨"node.stop", "n1", "i1"⟩

def turns (i n : Nat) : List Move := List.replicate n (.next i)

/-- A carry sends its stop, a `block` waits for its end, and a row writer finds the rows held. -/
theorem block_is_barrier_waited :
    let run := (turns 0 3 ++ turns 1 4 ++ turns 0 2 ++ turns 1 3 ++ turns 2 2).foldl step
      (start false false [.command .lifecycle stopKey .asked, .block .called, .rowWriter .waiting])
    run.tasks[1]? = some (.block (.returned 1)) ∧ run.commandsBarred = true ∧ run.Barrier :=
  ⟨by decide, by decide, block_is_barrier (by simp [Task.Unbegun]) false false (by decide)⟩

/-- A `block` returned and no `unblock` came, yet a stop is in flight: the carry was admitted before the `block` and opened its
key after it; a mesh join never waited for an admission; of two carries under one key, the first that ended closed it. And a
row writer has a turn after a `block` that returned, when the rows were released while the call waited. -/
theorem commands_in_flight_after_block :
    let carried := (turns 0 1 ++ turns 1 6 ++ turns 0 2).foldl step
      (start false false [.command .lifecycle stopKey .asked, .block .called])
    let joined := (turns 1 6 ++ turns 0 3).foldl step (start false false [.command .meshJoin stopKey .asked, .block .called])
    let shared := (turns 0 3 ++ turns 1 3 ++ turns 0 2 ++ turns 2 6).foldl step
      (start false false [.command .lifecycle stopKey .asked, .command .lifecycle stopKey .asked, .block .called])
    let written : System String := (turns 1 2 ++ turns 2 1 ++ turns 1 4 ++ turns 0 2).foldl step
      (start false false [.rowWriter .waiting, .block .called, .releaseRows false])
    ¬ carried.Barrier ∧ ¬ joined.Barrier ∧ ¬ shared.Barrier ∧ ¬ written.Barrier := by
  decide

end Runs

end System

end DistributedMesh.Commands
