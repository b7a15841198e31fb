import DistributedMesh.GuardedRuns
import DistributedMesh.NodeRecords
import Mathlib.Logic.Function.Basic

namespace DistributedMesh.Properties

open GuardedRuns

/-- Where the task of a write is. -/
inductive Stage where
  /-- It waits for the lock on the record held. -/
  | waiting
  /-- No record is held: it reads the node's own. -/
  | reading
  /-- Its put is issued, and has landed or not. -/
  | putting (record : NodeRecord) (landed : Bool)
  | answered (answer : Except StorageError NodeRecord)

/-- The task of one write, and whether its caller still awaits it. -/
structure Task where
  write : Write
  stage : Stage
  awaited : Bool

/-- The lock on the record held. -/
def Task.holds (t : Task) : Option Unit :=
  match t.stage with
  | .reading => some ()
  | .putting _ _ => some ()
  | _ => none

/-- What a node's writer has done, as far as others see it. -/
inductive Event where
  /-- The `deleted` hook answered true. -/
  | deleted
  | read (provider : String) (record : Option NodeRecord)
  /-- A put begins, of a write's change to the record `base`. -/
  | put (task : Nat) (write : Write) (base record : NodeRecord)
  | thawed (provider : String)

/-- A node's property writer over the providers' stores: the provider it writes, the record it holds, whether a storage
change holds its lock, the config it holds, its tasks; the writes in the order they took the lock, and those whose change
is in the store; and what it did. -/
structure Writer where
  stores : String → Option NodeRecord
  provider : String
  held : Option NodeRecord
  frozen : Bool
  config : Option (List (String × String))
  tasks : List Task
  order : List (Nat × Write)
  applied : List (Nat × Write)
  log : List Event

namespace Writer

/-- The node's record at the provider it writes. -/
def durable (s : Writer) : Option NodeRecord := s.stores s.provider

def Free (s : Writer) : Prop := s.frozen = false ∧ LockFree Task.holds s.tasks ()

instance (s : Writer) : Decidable s.Free := inferInstanceAs (Decidable (_ ∧ _))

def advance (s : Writer) (i : Nat) (t : Task) (stage : Stage) : Writer :=
  { s with tasks := s.tasks.set i { t with stage := stage } }

def note (s : Writer) (e : Event) : Writer := { s with log := s.log ++ [e] }

/-- The lock is taken. -/
def lock (s : Writer) (i : Nat) (t : Task) : Writer := { s with order := s.order ++ [(i, t.write)] }

/-- The change is in the store. -/
def apply (s : Writer) (i : Nat) (t : Task) : Writer := { s with applied := s.applied ++ [(i, t.write)] }

/-- The record is held, its config taken, and the write answers. -/
def finish (s : Writer) (i : Nat) (t : Task) (next : NodeRecord) : Writer :=
  { s with held := some next, config := some next.config }.advance i t (.answered (.ok next))

/-- The change under the lock: refused, nothing to write, or put. -/
def change (s : Writer) (i : Nat) (t : Task) : Writer :=
  match t.write.change (s.held.getD t.write.initial) with
  | .error e => s.advance i t (.answered (.error e))
  | .ok next =>
    if s.held = some next then (s.apply i t).finish i t next
    else (s.note (.put i t.write (s.held.getD t.write.initial) next)).advance i t (.putting next false)

/-- A storage change takes the lock. -/
def freeze (s : Writer) : Writer := { s with frozen := true }

/-- The freeze is dropped: the record held is forgotten. -/
def thaw (s : Writer) : Writer :=
  { s with frozen := false, held := none, log := s.log ++ [.thawed s.provider] }

/-- A writer that holds nothing, over the stores there are. -/
def new (stores : String → Option NodeRecord) (provider : String) : Writer :=
  ⟨stores, provider, none, false, none, [], [], [], []⟩

end Writer

/-- What happens next at a writer. -/
inductive Move where
  /-- A call, and what the `deleted` hook answers it. -/
  | calls (c : Command) (deleted : Bool)
  /-- A caller is cancelled: the task of its write goes on. -/
  | cancels (i : Nat)
  | locks (i : Nat)
  | reads (i : Nat)
  | readFails (i : Nat) (e : StorageError)
  | lands (i : Nat)
  | answers (i : Nat)
  /-- A put answers an error, having landed or not. -/
  | fails (i : Nat) (e : StorageError)
  | freezes
  | thaws
  /-- A hydration sync's own row. -/
  | installs (config : List (String × String))

open Writer

def refusedDeleted (w : Write) : Except StorageError NodeRecord :=
  .error (.refused "node record" (.deleted w.initial.nodeId))

/-- A task goes on from the stage it is in. -/
def Writer.goesOn (s : Writer) (i : Nat) (next : Task → Stage → Writer) : Writer :=
  match s.tasks[i]? with
  | some t => next t t.stage
  | none => s

def step (s : Writer) : Move → Writer
  | .calls c deleted =>
    match c.write with
    | none => s
    | some w =>
      if deleted then { s.note .deleted with tasks := s.tasks ++ [⟨w, .answered (refusedDeleted w), true⟩] }
      else { s with tasks := s.tasks ++ [⟨w, .waiting, true⟩] }
  | .cancels i => s.goesOn i fun t _ => { s with tasks := s.tasks.set i { t with awaited := false } }
  | .locks i =>
    s.goesOn i fun t stage =>
      match stage with
      | .waiting =>
        if s.Free then
          if s.held = none ∧ t.write.readRetained = true then (s.lock i t).advance i t .reading
          else (s.lock i t).change i t
        else s
      | _ => s
  | .reads i =>
    s.goesOn i fun t stage =>
      match stage with
      | .reading => ({ s with held := s.durable }.note (.read s.provider s.durable)).change i t
      | _ => s
  | .readFails i e =>
    s.goesOn i fun t stage =>
      match stage with
      | .reading => s.advance i t (.answered (.error e))
      | _ => s
  | .lands i =>
    s.goesOn i fun t stage =>
      match stage with
      | .putting next false =>
        ({ s with stores := Function.update s.stores s.provider (some next) }.apply i t).advance i t (.putting next true)
      | _ => s
  | .answers i =>
    s.goesOn i fun t stage =>
      match stage with
      | .putting next true => s.finish i t next
      | _ => s
  | .fails i e =>
    s.goesOn i fun t stage =>
      match stage with
      | .putting _ _ => { s with held := none }.advance i t (.answered (.error e))
      | _ => s
  | .freezes => if s.Free then s.freeze else s
  | .thaws => if s.frozen then s.thaw else s
  | .installs config => { s with config := some (s.config.getD config) }

/-- What one step does to a writer. -/
inductive Does (s : Writer) : Move → Writer → Prop where
  | nothing (m : Move) : Does s m s
  | called {c : Command} {w : Write} (hw : c.write = some w) :
      Does s (.calls c false) { s with tasks := s.tasks ++ [⟨w, .waiting, true⟩] }
  | refused {c : Command} {w : Write} (hw : c.write = some w) :
      Does s (.calls c true) { s.note .deleted with tasks := s.tasks ++ [⟨w, .answered (refusedDeleted w), true⟩] }
  | cancelled {i : Nat} {t : Task} (hi : s.tasks[i]? = some t) :
      Does s (.cancels i) { s with tasks := s.tasks.set i { t with awaited := false } }
  | lockedRead {i : Nat} {t : Task} (hi : s.tasks[i]? = some t) (hstage : t.stage = .waiting) (hfree : s.Free)
      (hheld : s.held = none) (hread : t.write.readRetained = true) : Does s (.locks i) ((s.lock i t).advance i t .reading)
  | locked {i : Nat} {t : Task} (hi : s.tasks[i]? = some t) (hstage : t.stage = .waiting) (hfree : s.Free)
      (hheld : s.held = none → t.write.readRetained = false) : Does s (.locks i) ((s.lock i t).change i t)
  | retained {i : Nat} {t : Task} (hi : s.tasks[i]? = some t) (hstage : t.stage = .reading) :
      Does s (.reads i) (({ s with held := s.durable }.note (.read s.provider s.durable)).change i t)
  | readFailed {i : Nat} {t : Task} {e : StorageError} (hi : s.tasks[i]? = some t) (hstage : t.stage = .reading) :
      Does s (.readFails i e) (s.advance i t (.answered (.error e)))
  | landed {i : Nat} {t : Task} {next : NodeRecord} (hi : s.tasks[i]? = some t) (hstage : t.stage = .putting next false) :
      Does s (.lands i) (({ s with stores := Function.update s.stores s.provider (some next) }.apply i t).advance i t
        (.putting next true))
  | finished {i : Nat} {t : Task} {next : NodeRecord} (hi : s.tasks[i]? = some t) (hstage : t.stage = .putting next true) :
      Does s (.answers i) (s.finish i t next)
  | failed {i : Nat} {t : Task} {next : NodeRecord} {landed : Bool} {e : StorageError} (hi : s.tasks[i]? = some t)
      (hstage : t.stage = .putting next landed) :
      Does s (.fails i e) ({ s with held := none }.advance i t (.answered (.error e)))
  | froze (hfree : s.Free) : Does s .freezes s.freeze
  | thawed (hfrozen : s.frozen = true) : Does s .thaws s.thaw
  | installed (config : List (String × String)) : Does s (.installs config) { s with config := some (s.config.getD config) }

theorem goesOn_does {s : Writer} {m : Move} {i : Nat} {next : Task → Stage → Writer}
    (h : ∀ t, s.tasks[i]? = some t → Does s m (next t t.stage)) : Does s m (s.goesOn i next) := by
  unfold goesOn
  split
  next t hi => exact h t hi
  next => exact .nothing m

theorem step_does (s : Writer) (m : Move) : Does s m (step s m) := by
  cases m with
  | calls c deleted =>
    simp only [step]
    split
    next => exact .nothing _
    next w hw =>
      cases deleted with
      | true => exact .refused hw
      | false => exact .called hw
  | cancels i =>
    simp only [step]
    exact goesOn_does fun t hi => .cancelled hi
  | locks i =>
    simp only [step]
    refine goesOn_does fun t hi => ?_
    split
    next hstage =>
      split
      next hfree =>
        split
        next hheld => exact .lockedRead hi hstage hfree hheld.1 hheld.2
        next hheld => exact .locked hi hstage hfree fun hnone => by simpa [hnone] using hheld
      next => exact .nothing _
    next => exact .nothing _
  | reads i =>
    simp only [step]
    refine goesOn_does fun t hi => ?_
    split
    next hstage => exact .retained hi hstage
    next => exact .nothing _
  | readFails i e =>
    simp only [step]
    refine goesOn_does fun t hi => ?_
    split
    next hstage => exact .readFailed hi hstage
    next => exact .nothing _
  | lands i =>
    simp only [step]
    refine goesOn_does fun t hi => ?_
    split
    next next hstage => exact .landed hi hstage
    next => exact .nothing _
  | answers i =>
    simp only [step]
    refine goesOn_does fun t hi => ?_
    split
    next next hstage => exact .finished hi hstage
    next => exact .nothing _
  | fails i e =>
    simp only [step]
    refine goesOn_does fun t hi => ?_
    split
    next next landed hstage => exact .failed hi hstage
    next => exact .nothing _
  | freezes =>
    simp only [step]
    split
    next hfree => exact .froze hfree
    next => exact .nothing _
  | thaws =>
    simp only [step]
    split
    next hfrozen => exact .thawed hfrozen
    next => exact .nothing _
  | installs config => exact .installed config

/-- What a change under the lock does. -/
theorem change_cases (s : Writer) (i : Nat) (t : Task) :
    (∃ e, t.write.change (s.held.getD t.write.initial) = .error e ∧ s.change i t = s.advance i t (.answered (.error e))) ∨
    ∃ next, t.write.change (s.held.getD t.write.initial) = .ok next ∧
      (s.held = some next ∧ s.change i t = (s.apply i t).finish i t next ∨
        s.held ≠ some next ∧ s.change i t =
          (s.note (.put i t.write (s.held.getD t.write.initial) next)).advance i t (.putting next false)) := by
  unfold change
  split
  next e he => exact .inl ⟨e, he, rfl⟩
  next next hnext =>
    refine .inr ⟨next, hnext, ?_⟩
    split
    next hheld => exact .inl ⟨hheld, rfl⟩
    next hheld => exact .inr ⟨hheld, rfl⟩

/-- The record a write that answered Ok wrote. -/
def Task.ok (t : Task) : Option NodeRecord :=
  match t.stage with
  | .answered (.ok r) => some r
  | _ => none

def okAt (tasks : List Task) (p : Nat × Write) : Option NodeRecord := tasks[p.1]?.bind Task.ok

/-- The last record written with Ok, in the order the lock was taken in. -/
def lastOk (order : List (Nat × Write)) (tasks : List Task) : Option NodeRecord := order.reverse.findSome? (okAt tasks)

/-- A put that landed and has not answered. -/
def Task.landed (t : Task) : Bool :=
  match t.stage with
  | .putting _ true => true
  | _ => false

/-- How far a task's write is in the order the lock was taken in, in what was applied, and on the durable record. -/
def Task.Placed (order applied : List (Nat × Write)) (durable : Option NodeRecord) (i : Nat) (t : Task) : Prop :=
  match t.stage with
  | .waiting => ∀ p ∈ order, p.1 ≠ i
  | .reading => ∃ before, order = before ++ [(i, t.write)] ∧ applied.Sublist before
  | .putting next false =>
    (∃ before, order = before ++ [(i, t.write)] ∧ applied.Sublist before) ∧ t.write.on durable = some next
  | .putting next true => (∃ before, order = before ++ [(i, t.write)]) ∧ (i, t.write) ∈ applied ∧ durable = some next
  | .answered (.ok _) => (i, t.write) ∈ applied
  | .answered (.error _) => True

/-- One task has the lock, and none while a storage change does. -/
structure Locks (s : Writer) : Prop where
  exclusive : Exclusive Task.holds s.tasks
  frozen : s.frozen = true → LockFree Task.holds s.tasks ()

/-- The store's record is the fold of what was applied, in the order the lock was taken in. -/
structure Kept (stored : Option NodeRecord) (s : Writer) : Prop extends Locks s where
  placed : ∀ (i : Nat) (t : Task), s.tasks[i]? = some t → t.Placed s.order s.applied s.durable i
  ordered : ∀ p ∈ s.order, ∃ t, s.tasks[p.1]? = some t ∧ t.write = p.2
  nodup : (s.order.map Prod.fst).Nodup
  sublist : s.applied.Sublist s.order
  held : ∀ r, s.held = some r → s.durable = some r ∨ ∃ t ∈ s.tasks, t.landed = true
  first : s.order = [] → s.held = none
  folded : s.durable = (s.applied.map Prod.snd).foldl Write.on stored
  config : ∀ r, lastOk s.order s.tasks = some r → s.config = some r.config

section LastOk

variable {order : List (Nat × Write)} {tasks : List Task} {p : Nat × Write} {i : Nat} {t t' : Task}

theorem findSome?_okAt {tasks' : List Task} {order : List (Nat × Write)}
    (h : ∀ p ∈ order, okAt tasks' p = okAt tasks p) : order.findSome? (okAt tasks') = order.findSome? (okAt tasks) := by
  induction order with
  | nil => rfl
  | cons p order ih =>
    rw [List.findSome?_cons, List.findSome?_cons, h p (List.mem_cons_self ..),
      ih fun q hq => h q (List.mem_cons_of_mem _ hq)]

/-- A task goes on and wrote nothing more with Ok. -/
theorem lastOk_set (hi : tasks[i]? = some t) (hok : t'.ok = t.ok) : lastOk order (tasks.set i t') = lastOk order tasks := by
  refine findSome?_okAt fun p _ => ?_
  unfold okAt
  by_cases hp : p.1 = i
  · rw [hp, List.getElem?_set_self (List.getElem?_eq_some_iff.mp hi).1, hi]
    exact hok
  · rw [List.getElem?_set_ne (Ne.symm hp)]

theorem lastOk_begins (h : ∀ p ∈ order, p.1 < tasks.length) (new : Task) :
    lastOk order (tasks ++ [new]) = lastOk order tasks := by
  refine findSome?_okAt fun p hp => ?_
  unfold okAt
  rw [List.getElem?_append_left (h p (List.mem_reverse.mp hp))]

theorem lastOk_lock (h : okAt tasks p = none) : lastOk (order ++ [p]) tasks = lastOk order tasks := by
  unfold lastOk
  rw [List.reverse_append, List.reverse_singleton, List.singleton_append, List.findSome?_cons, h]

theorem okAt_set (hi : tasks[i]? = some t) {w : Write} {r : NodeRecord} :
    okAt (tasks.set i { t with stage := .answered (.ok r) }) (i, w) = some r := by
  unfold okAt
  rw [List.getElem?_set_self (List.getElem?_eq_some_iff.mp hi).1]
  rfl

theorem lastOk_last {r : NodeRecord} (h : okAt tasks p = some r) : lastOk (order ++ [p]) tasks = some r := by
  unfold lastOk
  rw [List.reverse_append, List.reverse_singleton, List.singleton_append, List.findSome?_cons, h]

end LastOk

section Invariant

variable {stored : Option NodeRecord} {s s' : Writer} {i : Nat} {t t' : Task}

theorem Task.holds_of_landed (h : t.landed = true) : t.holds = some () := by
  unfold Task.landed at h
  unfold Task.holds
  split at h
  next hstage => rw [hstage]
  next => cases h

/-- A task without the lock is placed as it was, whatever the one with the lock does. -/
theorem Task.Placed.other {order applied order' applied' : List (Nat × Write)} {durable durable' : Option NodeRecord} {j : Nat}
    (h : t.Placed order applied durable j) (hfree : t.holds ≠ some ()) (horder : ∀ p ∈ order', p ∈ order ∨ p.1 ≠ j)
    (happlied : ∀ p ∈ applied, p ∈ applied') : t.Placed order' applied' durable' j := by
  unfold Task.Placed at h ⊢
  unfold Task.holds at hfree
  cases hstage : t.stage with
  | waiting =>
    rw [hstage] at h
    intro p hp
    rcases horder p hp with hold | hne
    · exact h p hold
    · exact hne
  | reading => simp [hstage] at hfree
  | putting next landed => simp [hstage] at hfree
  | answered answer =>
    rw [hstage] at h
    cases answer with
    | ok r => exact happlied _ h
    | error e => trivial

/-- No other task has the lock. -/
def Alone (s : Writer) (i : Nat) : Prop := ∀ (j : Nat) (t : Task), j ≠ i → s.tasks[j]? = some t → t.holds ≠ some ()

theorem Locks.alone (h : Locks s) (hi : s.tasks[i]? = some t) (hholds : t.holds = some ()) : Alone s i := by
  intro j u hj hu hholds'
  exact hj (h.exclusive j i u t () hu hi hholds' hholds)

theorem alone_of_free (h : LockFree Task.holds s.tasks ()) (i : Nat) : Alone s i :=
  fun _ u _ hu => h u (List.mem_of_getElem? hu)

/-- While a task has the lock no storage change does. -/
theorem Locks.not_frozen (h : Locks s) (hi : s.tasks[i]? = some t) (hholds : t.holds = some ()) : s.frozen = false := by
  by_contra hf
  exact h.frozen (Bool.eq_true_of_not_eq_false hf) t (List.mem_of_getElem? hi) hholds

theorem Locks.goesOn (halone : Alone s i) (htasks : s'.tasks = s.tasks.set i t') (hthawed : s'.frozen = false) :
    Locks s' := by
  refine ⟨?_, fun hf => ?_⟩
  · rw [htasks]
    intro j l a b k ha hb hka hkb
    have hi_of : ∀ (m : Nat) (u : Task), (s.tasks.set i t')[m]? = some u → u.holds = some k → m = i := by
      intro m u hm hk
      obtain ⟨hmi, -⟩ | ⟨hne, hwas⟩ := getElem?_of_set hm
      · exact hmi
      · exact absurd hk (halone m u hne hwas)
    rw [hi_of j a ha hka, hi_of l b hb hkb]
  · rw [hthawed] at hf
    cases hf

theorem Locks.begins (h : Locks s) {new : Task} (hnew : new.holds = none) (log : List Event) :
    Locks { s with tasks := s.tasks ++ [new], log := log } := by
  refine ⟨h.exclusive.append hnew, fun hf u hu => ?_⟩
  rcases List.mem_append.mp hu with hu | hu
  · exact h.frozen hf u hu
  · rw [List.mem_singleton.mp hu, hnew]
    exact fun hk => by cases hk

theorem Locks.cancel (h : Locks s) (hi : s.tasks[i]? = some t) :
    Locks { s with tasks := s.tasks.set i { t with awaited := false } } :=
  ⟨h.exclusive.set hi fun _ hk => Or.inl hk,
    fun hf => forall_mem_set (h.frozen hf) (h.frozen hf t (List.mem_of_getElem? hi))⟩

theorem locks_new (stores : String → Option NodeRecord) (provider : String) : Locks (Writer.new stores provider) :=
  ⟨exclusive_nil, fun _ u hu => by cases hu⟩

theorem kept_new (stores : String → Option NodeRecord) (provider : String) :
    Kept (stores provider) (Writer.new stores provider) := by
  refine ⟨locks_new stores provider, ?_, ?_, List.nodup_nil, List.Sublist.refl _, ?_, fun _ => rfl, rfl, ?_⟩ <;>
    simp [Writer.new, lastOk]

/-- Who holds the lock alone goes on. -/
theorem Kept.goesOn (h : Kept stored s) (hi : s.tasks[i]? = some t) (halone : Alone s i)
    (htasks : s'.tasks = s.tasks.set i t') (hwrite : t'.write = t.write)
    (hthawed : s'.frozen = false)
    (horder : ∀ p ∈ s'.order, p ∈ s.order ∨ p = (i, t.write)) (happlied : ∀ p ∈ s.applied, p ∈ s'.applied)
    (hplaced : t'.Placed s'.order s'.applied s'.durable i) (hnodup : (s'.order.map Prod.fst).Nodup)
    (hsublist : s'.applied.Sublist s'.order)
    (hheld : ∀ r, s'.held = some r → s'.durable = some r ∨ t'.landed = true)
    (hfirst : s'.order = [] → s'.held = none)
    (hfolded : s'.durable = (s'.applied.map Prod.snd).foldl Write.on stored)
    (hconfig : ∀ r, lastOk s'.order s'.tasks = some r → s'.config = some r.config) : Kept stored s' := by
  refine ⟨.goesOn halone htasks hthawed, ?_, ?_, hnodup, hsublist, ?_, hfirst, hfolded, hconfig⟩
  · rw [htasks]
    refine forall_getElem?_set (fun j u hj hu => ?_) hplaced
    refine (h.placed j u hu).other (halone j u hj hu) (fun p hp => ?_) happlied
    rcases horder p hp with hold | rfl
    · exact Or.inl hold
    · exact Or.inr (Ne.symm hj)
  · intro p hp
    have hself : s'.tasks[i]? = some t' := by
      rw [htasks, List.getElem?_set_self (List.getElem?_eq_some_iff.mp hi).1]
    rcases horder p hp with hold | rfl
    · obtain ⟨u, hu, hw⟩ := h.ordered p hold
      by_cases hpi : p.1 = i
      · rw [hpi, hi] at hu
        cases hu
        exact ⟨t', by rw [hpi]; exact hself, hwrite.trans hw⟩
      · refine ⟨u, ?_, hw⟩
        rw [htasks, List.getElem?_set_ne (Ne.symm hpi)]
        exact hu
    · exact ⟨t', hself, hwrite⟩
  · intro r hr
    rcases hheld r hr with hd | hl
    · exact Or.inl hd
    · refine Or.inr ⟨t', ?_, hl⟩
      rw [htasks]
      exact mem_set_self hi

/-- A task that begins has not asked for the lock. -/
theorem Kept.begins (h : Kept stored s) {new : Task} (hnew : new.holds = none)
    (hplaced : ∀ i, (∀ p ∈ s.order, p.1 ≠ i) → new.Placed s.order s.applied s.durable i) (log : List Event) :
    Kept stored { s with tasks := s.tasks ++ [new], log := log } := by
  have hlast : ∀ (i : Nat) (u : Task), (s.tasks ++ [new])[i]? = some u →
      s.tasks[i]? = some u ∨ i = s.tasks.length ∧ u = new := by
    intro i u hu
    rw [List.getElem?_append] at hu
    split at hu
    next => exact Or.inl hu
    next hle =>
      have hlen := (List.getElem?_eq_some_iff.mp hu).1
      simp only [List.length_singleton] at hlen
      have hi : i = s.tasks.length := by omega
      subst hi
      simp at hu
      exact Or.inr ⟨rfl, hu.symm⟩
  have hfresh : ∀ p ∈ s.order, p.1 ≠ s.tasks.length := by
    intro p hp heq
    obtain ⟨u, hu, -⟩ := h.ordered p hp
    have hlen := (List.getElem?_eq_some_iff.mp hu).1
    omega
  refine ⟨h.toLocks.begins hnew log, ?_, ?_, h.nodup, h.sublist, ?_, h.first, h.folded, ?_⟩
  · intro i u hu
    rcases hlast i u hu with hu | ⟨rfl, rfl⟩
    · exact h.placed i u hu
    · exact hplaced _ hfresh
  · intro p hp
    obtain ⟨u, hu, hw⟩ := h.ordered p hp
    exact ⟨u, by rw [List.getElem?_append_left (List.getElem?_eq_some_iff.mp hu).1]; exact hu, hw⟩
  · intro r hr
    rcases h.held r hr with hd | ⟨u, hu, hl⟩
    · exact Or.inl hd
    · exact Or.inr ⟨u, List.mem_append_left _ hu, hl⟩
  · intro r hr
    refine h.config r ?_
    rw [← hr]
    refine (lastOk_begins (fun p hp => ?_) new).symm
    obtain ⟨u, hu, -⟩ := h.ordered p hp
    exact (List.getElem?_eq_some_iff.mp hu).1

/-- A task went on with nothing more written with Ok, and the config stayed. -/
theorem Kept.config_set (h : Kept stored s) (hi : s.tasks[i]? = some t) (hok : t'.ok = t.ok) :
    ∀ r, lastOk s.order (s.tasks.set i t') = some r → s.config = some r.config := by
  intro r hr
  rw [lastOk_set hi hok] at hr
  exact h.config r hr

theorem Task.ok_of_holds (h : t.holds = some ()) : t.ok = none := by
  unfold Task.holds at h
  unfold Task.ok
  split at h
  next hstage => rw [hstage]
  next hstage => rw [hstage]
  next => cases h

theorem Kept.cancel (h : Kept stored s) (hi : s.tasks[i]? = some t) :
    Kept stored { s with tasks := s.tasks.set i { t with awaited := false } } := by
  refine ⟨h.toLocks.cancel hi, ?_, ?_, h.nodup, h.sublist, ?_, h.first, h.folded, h.config_set hi rfl⟩
  · exact forall_getElem?_set (fun j u _ hu => h.placed j u hu) (h.placed i t hi)
  · intro p hp
    obtain ⟨u, hu, hw⟩ := h.ordered p hp
    by_cases hpi : p.1 = i
    · rw [hpi, hi] at hu
      cases hu
      refine ⟨{ t with awaited := false }, ?_, hw⟩
      rw [hpi, List.getElem?_set_self (List.getElem?_eq_some_iff.mp hi).1]
    · refine ⟨u, ?_, hw⟩
      rw [List.getElem?_set_ne (Ne.symm hpi)]
      exact hu
  · intro r hr
    exact (h.held r hr).imp_right fun hlanded => exists_mem_set hi hlanded id

/-- With the lock free, what is held is the store's record. -/
theorem Kept.held_of_free (h : Kept stored s) (hfree : LockFree Task.holds s.tasks ()) {r : NodeRecord}
    (hr : s.held = some r) : s.durable = some r := by
  rcases h.held r hr with hd | ⟨u, hu, hl⟩
  · exact hd
  · exact absurd (Task.holds_of_landed hl) (hfree u hu)

/-- While a task has the lock and its put has not landed, what is held is the store's record. -/
theorem Kept.held_of_alone (h : Kept stored s) (hi : s.tasks[i]? = some t) (halone : Alone s i) (hl : t.landed = false)
    {r : NodeRecord} (hr : s.held = some r) : s.durable = some r := by
  rcases h.held r hr with hd | ⟨u, hu, hlanded⟩
  · exact hd
  · obtain ⟨j, hj⟩ := List.mem_iff_getElem?.mp hu
    by_cases hji : j = i
    · rw [hji, hi] at hj
      cases hj
      rw [hl] at hlanded
      cases hlanded
    · exact absurd (Task.holds_of_landed hlanded) (halone j u hji hj)

theorem Kept.lock (h : Kept stored s) (hi : s.tasks[i]? = some t) (hstage : t.stage = .waiting) (hfree : s.Free) :
    Kept stored ((s.lock i t).advance i t .reading) := by
  have hplaced := h.placed i t hi
  unfold Task.Placed at hplaced
  rw [hstage] at hplaced
  have hnew : i ∉ s.order.map Prod.fst := by
    intro hmem
    obtain ⟨p, hp, hpi⟩ := List.mem_map.mp hmem
    exact hplaced p hp hpi
  refine h.goesOn hi (alone_of_free hfree.2 i) rfl rfl hfree.1 ?_ (fun p hp => hp) ?_ ?_ ?_ ?_ ?_ h.folded ?_
  · intro p hp
    rcases List.mem_append.mp hp with hp | hp
    · exact Or.inl hp
    · exact Or.inr (List.mem_singleton.mp hp)
  · exact ⟨s.order, rfl, h.sublist⟩
  · change ((s.order ++ [(i, t.write)]).map Prod.fst).Nodup
    rw [List.map_append, List.map_singleton, List.nodup_append]
    refine ⟨h.nodup, List.nodup_singleton _, ?_⟩
    intro a ha b hb hab
    rw [hab, List.mem_singleton.mp hb] at ha
    exact hnew ha
  · exact h.sublist.trans (List.sublist_append_left _ _)
  · exact fun r hr => Or.inl (h.held_of_free hfree.2 hr)
  · intro hnil
    exact absurd hnil (by simp [Writer.lock, advance])
  · intro r hr
    have hok : okAt (s.tasks.set i { t with stage := .reading }) (i, t.write) = none := by
      unfold okAt
      rw [List.getElem?_set_self (List.getElem?_eq_some_iff.mp hi).1]
      rfl
    have hwas : t.ok = none := by
      unfold Task.ok
      rw [hstage]
    refine h.config_set hi (show ({ t with stage := .reading } : Task).ok = t.ok from hwas.symm) r ?_
    rw [← hr]
    exact (lastOk_lock hok).symm

/-- What is held is read again, or forgotten. -/
theorem Kept.holds (h : Kept stored s) {held : Option NodeRecord} (hheld : ∀ r, held = some r → s.durable = some r)
    (hfirst : s.order = [] → held = none) (log : List Event) : Kept stored { s with held := held, log := log } :=
  ⟨⟨h.exclusive, h.frozen⟩, h.placed, h.ordered, h.nodup, h.sublist, fun r hr => Or.inl (hheld r hr), hfirst, h.folded,
    h.config⟩

theorem Task.holds_of_reading (hstage : t.stage = .reading) : t.holds = some () := by
  unfold Task.holds
  rw [hstage]

theorem Task.holds_of_putting {next : NodeRecord} {landed : Bool} (hstage : t.stage = .putting next landed) :
    t.holds = some () := by
  unfold Task.holds
  rw [hstage]

theorem Kept.change (h : Kept stored s) (hi : s.tasks[i]? = some t) (hstage : t.stage = .reading)
    (hheld : ∀ r, s.held = some r → s.durable = some r)
    (hbase : ∀ next, t.write.change (s.held.getD t.write.initial) = .ok next → t.write.on s.durable = some next) :
    Kept stored (s.change i t) := by
  have hholds := Task.holds_of_reading hstage
  have halone := h.alone hi hholds
  have hthawed := h.not_frozen hi hholds
  have hplaced := h.placed i t hi
  unfold Task.Placed at hplaced
  rw [hstage] at hplaced
  obtain ⟨before, horder, hsub⟩ := hplaced
  have hne : s.order = [] → s.held = none := by
    intro hnil
    rw [horder] at hnil
    simp at hnil
  rcases change_cases s i t with ⟨e, -, hchange⟩ | ⟨next, hnext, ⟨hsame, hchange⟩ | ⟨hmoved, hchange⟩⟩
  · rw [hchange]
    exact h.goesOn hi halone rfl rfl hthawed (fun p hp => Or.inl hp) (fun p hp => hp) trivial h.nodup h.sublist
      (fun r hr => Or.inl (hheld r hr)) hne h.folded (h.config_set hi (Task.ok_of_holds hholds).symm)
  · rw [hchange]
    have hon : t.write.on s.durable = s.durable := by
      rw [hbase next hnext, hheld next hsame]
    refine h.goesOn hi halone rfl rfl hthawed (fun p hp => Or.inl hp) (fun p hp => List.mem_append_left _ hp) ?_ h.nodup ?_
      ?_ ?_ ?_ ?_
    · exact List.mem_append_right _ (List.mem_singleton_self _)
    · change (s.applied ++ [(i, t.write)]).Sublist s.order
      rw [horder]
      exact hsub.append (List.Sublist.refl _)
    · intro r hr
      cases hr
      exact Or.inl (hheld next hsame)
    · intro hnil
      change s.order = [] at hnil
      rw [horder] at hnil
      simp at hnil
    · change s.durable = ((s.applied ++ [(i, t.write)]).map Prod.snd).foldl Write.on stored
      rw [List.map_append, List.foldl_append, ← h.folded]
      exact hon.symm
    · intro r hr
      change lastOk s.order (s.tasks.set i { t with stage := .answered (.ok next) }) = some r at hr
      rw [horder, lastOk_last (okAt_set hi)] at hr
      cases hr
      rfl
  · rw [hchange]
    exact h.goesOn hi halone rfl rfl hthawed (fun p hp => Or.inl hp) (fun p hp => hp)
      ⟨⟨before, horder, hsub⟩, hbase next hnext⟩ h.nodup h.sublist (fun r hr => Or.inl (hheld r hr)) hne h.folded
      (h.config_set hi (Task.ok_of_holds hholds).symm)

/-- A write that takes the lock without a read makes its change as one that has it. -/
theorem lock_change (s : Writer) (i : Nat) (t : Task) :
    (s.lock i t).change i t = ((s.lock i t).advance i t .reading).change i { t with stage := .reading } := by
  unfold Writer.change
  simp only [Writer.lock, Writer.advance, Writer.apply, Writer.finish, Writer.note, List.set_set]
  rfl

/-- A call's base is the store's record, or the start's own where it is the first to take the lock. -/
theorem Kept.base (h : Kept stored s) (hfree : LockFree Task.holds s.tasks ())
    (hheld : s.held = none → t.write.readRetained = false) (hfirst : t.write.readRetained = false → s.order = [])
    {next : NodeRecord} (hnext : t.write.change (s.held.getD t.write.initial) = .ok next) :
    t.write.on s.durable = some next := by
  cases hr : s.held with
  | none =>
    rw [hr] at hnext
    exact Write.on_bound (hheld hr) _ hnext
  | some r =>
    cases hread : t.write.readRetained with
    | false =>
      have hnone := h.first (hfirst hread)
      rw [hr] at hnone
      cases hnone
    | true =>
      have hdurable := h.held_of_free hfree hr
      rw [hr] at hnext
      refine Write.on_readRetained hread _ ?_
      rw [hdurable]
      exact hnext

theorem Kept.land (h : Kept stored s) {next : NodeRecord} (hi : s.tasks[i]? = some t)
    (hstage : t.stage = .putting next false) :
    Kept stored (({ s with stores := Function.update s.stores s.provider (some next) }.apply i t).advance i t
      (.putting next true)) := by
  have hholds := Task.holds_of_putting hstage
  have hplaced := h.placed i t hi
  unfold Task.Placed at hplaced
  rw [hstage] at hplaced
  obtain ⟨⟨before, horder, hsub⟩, hon⟩ := hplaced
  have hdurable : Function.update s.stores s.provider (some next) s.provider = some next := Function.update_self _ _ _
  refine h.goesOn hi (h.alone hi hholds) rfl rfl (h.not_frozen hi hholds) (fun p hp => Or.inl hp)
    (fun p hp => List.mem_append_left _ hp) ?_ h.nodup ?_ (fun r _ => Or.inr rfl) h.first ?_
    (h.config_set hi (Task.ok_of_holds hholds).symm)
  · exact ⟨⟨before, horder⟩, List.mem_append_right _ (List.mem_singleton_self _), hdurable⟩
  · change (s.applied ++ [(i, t.write)]).Sublist s.order
    rw [horder]
    exact hsub.append (List.Sublist.refl _)
  · change Function.update s.stores s.provider (some next) s.provider =
      ((s.applied ++ [(i, t.write)]).map Prod.snd).foldl Write.on stored
    rw [hdurable, List.map_append, List.foldl_append, ← h.folded]
    exact hon.symm

theorem Kept.order_ne_nil (h : Kept stored s) (hi : s.tasks[i]? = some t) (hholds : t.holds = some ()) : s.order ≠ [] := by
  intro hnil
  have hplaced := h.placed i t hi
  unfold Task.Placed at hplaced
  unfold Task.holds at hholds
  split at hholds
  next hstage =>
    rw [hstage] at hplaced
    obtain ⟨before, horder, -⟩ := hplaced
    simp [hnil] at horder
  next next landed hstage =>
    rw [hstage] at hplaced
    cases landed with
    | false =>
      obtain ⟨⟨before, horder, -⟩, -⟩ := hplaced
      simp [hnil] at horder
    | true =>
      obtain ⟨⟨before, horder⟩, -⟩ := hplaced
      simp [hnil] at horder
  next => cases hholds

theorem Kept.finish (h : Kept stored s) {next : NodeRecord} (hi : s.tasks[i]? = some t)
    (hstage : t.stage = .putting next true) : Kept stored (s.finish i t next) := by
  have hholds := Task.holds_of_putting hstage
  have hplaced := h.placed i t hi
  unfold Task.Placed at hplaced
  rw [hstage] at hplaced
  obtain ⟨⟨before, horder⟩, happlied, hdurable⟩ := hplaced
  refine h.goesOn hi (h.alone hi hholds) rfl rfl (h.not_frozen hi hholds) (fun p hp => Or.inl hp) (fun p hp => hp)
    happlied h.nodup h.sublist ?_ (fun hnil => absurd hnil (h.order_ne_nil hi hholds)) h.folded ?_
  · intro r hr
    cases hr
    exact Or.inl hdurable
  · intro r hr
    change lastOk s.order (s.tasks.set i { t with stage := .answered (.ok next) }) = some r at hr
    rw [horder, lastOk_last (okAt_set hi)] at hr
    cases hr
    rfl

/-- A write that errs holds nothing. -/
theorem Kept.fail (h : Kept stored s) (hi : s.tasks[i]? = some t) (hholds : t.holds = some ()) (e : StorageError) :
    Kept stored ({ s with held := none }.advance i t (.answered (.error e))) :=
  h.goesOn hi (h.alone hi hholds) rfl rfl (h.not_frozen hi hholds) (fun _ hp => Or.inl hp) (fun _ hp => hp) trivial h.nodup
    h.sublist (fun r hr => by cases hr) (fun _ => rfl) h.folded (h.config_set hi (Task.ok_of_holds hholds).symm)

theorem Kept.readFail (h : Kept stored s) (hi : s.tasks[i]? = some t) (hstage : t.stage = .reading) (e : StorageError) :
    Kept stored (s.advance i t (.answered (.error e))) := by
  have hholds := Task.holds_of_reading hstage
  have hl : t.landed = false := by
    unfold Task.landed
    rw [hstage]
  have halone := h.alone hi hholds
  exact h.goesOn hi halone rfl rfl (h.not_frozen hi hholds) (fun _ hp => Or.inl hp) (fun _ hp => hp) trivial h.nodup
    h.sublist (fun r hr => Or.inl (h.held_of_alone hi halone hl hr)) h.first h.folded (h.config_set hi (Task.ok_of_holds hholds).symm)

/-- A bound takes the lock before any other call does. -/
def boundFirst (s : Writer) : Move → Bool
  | .locks i => s.tasks[i]?.all fun t => t.write.readRetained || s.order.isEmpty
  | _ => true

/-- The tasks of a change: the one whose lock it is went on from reading. -/
theorem change_tasks (s : Writer) (i : Nat) (t : Task) :
    ∃ stage, (s.change i t).tasks = s.tasks.set i { t with stage := stage } ∧ stage ≠ .reading := by
  rcases change_cases s i t with ⟨e, -, hchange⟩ | ⟨next, -, ⟨-, hchange⟩ | ⟨-, hchange⟩⟩
  · exact ⟨_, by rw [hchange]; rfl, fun h => by cases h⟩
  · exact ⟨_, by rw [hchange]; rfl, fun h => by cases h⟩
  · exact ⟨_, by rw [hchange]; rfl, fun h => by cases h⟩

theorem change_frozen (s : Writer) (i : Nat) (t : Task) : (s.change i t).frozen = s.frozen := by
  rcases change_cases s i t with ⟨e, -, hchange⟩ | ⟨next, -, ⟨-, hchange⟩ | ⟨-, hchange⟩⟩
  · rw [hchange]; rfl
  · rw [hchange]; rfl
  · rw [hchange]; rfl

/-- Only a call that asks for the retained record reads it. -/
def ReadsRetained (s : Writer) : Prop := ∀ t ∈ s.tasks, t.stage = .reading → t.write.readRetained = true

theorem readsRetained_step (h : ReadsRetained s) (m : Move) : ReadsRetained (step s m) := by
  have hchange : ∀ (s : Writer) (i : Nat) (t : Task), ReadsRetained s → ReadsRetained (s.change i t) := by
    intro s i t h
    obtain ⟨stage, htasks, hstage⟩ := change_tasks s i t
    unfold ReadsRetained
    rw [htasks]
    exact forall_mem_set h fun hreading => absurd hreading hstage
  have hbegins : ∀ (w : Write) (stage : Stage), stage ≠ .reading →
      ∀ u ∈ s.tasks ++ [⟨w, stage, true⟩], u.stage = .reading → u.write.readRetained = true := by
    intro w stage hstage u hu hreading
    rcases List.mem_append.mp hu with hu | hu
    · exact h u hu hreading
    · rw [List.mem_singleton.mp hu] at hreading
      exact absurd hreading hstage
  have hdoes := step_does s m
  generalize step s m = s' at hdoes ⊢
  cases hdoes with
  | nothing => exact h
  | called hw => exact hbegins _ _ fun h => by cases h
  | refused hw => exact hbegins _ _ fun h => by cases h
  | @cancelled i t hi => exact forall_mem_set h (h t (List.mem_of_getElem? hi))
  | lockedRead hi hstage hfree hheld hread => exact forall_mem_set h fun _ => hread
  | locked hi hstage hfree hheld => exact hchange _ _ _ h
  | retained hi hstage => exact hchange _ _ _ h
  | readFailed hi hstage => exact forall_mem_set h fun hreading => by cases hreading
  | landed hi hstage => exact forall_mem_set h fun hreading => by cases hreading
  | finished hi hstage => exact forall_mem_set h fun hreading => by cases hreading
  | failed hi hstage => exact forall_mem_set h fun hreading => by cases hreading
  | froze hfree => exact h
  | thawed hfrozen => exact h
  | installed config => exact h

theorem locks_step (h : Locks s) (m : Move) : Locks (step s m) := by
  have hchange : ∀ (s : Writer) (i : Nat) (t : Task), Alone s i → s.frozen = false → Locks (s.change i t) := by
    intro s i t halone hthawed
    obtain ⟨stage, htasks, -⟩ := change_tasks s i t
    exact .goesOn halone htasks ((change_frozen s i t).trans hthawed)
  have hdoes := step_does s m
  generalize step s m = s' at hdoes ⊢
  cases hdoes with
  | nothing => exact h
  | @called c w hw => exact @Locks.begins s h ⟨w, .waiting, true⟩ rfl _
  | @refused c w hw => exact @Locks.begins s h ⟨w, .answered (refusedDeleted w), true⟩ rfl _
  | cancelled hi => exact h.cancel hi
  | lockedRead hi hstage hfree hheld hread => exact .goesOn (alone_of_free hfree.2 _) rfl hfree.1
  | locked hi hstage hfree hheld => exact hchange _ _ _ (alone_of_free hfree.2 _) hfree.1
  | retained hi hstage =>
    have hholds := Task.holds_of_reading hstage
    exact hchange _ _ _ (h.alone hi hholds) (h.not_frozen hi hholds)
  | readFailed hi hstage =>
    have hholds := Task.holds_of_reading hstage
    exact .goesOn (h.alone hi hholds) rfl (h.not_frozen hi hholds)
  | landed hi hstage =>
    have hholds := Task.holds_of_putting hstage
    exact .goesOn (h.alone hi hholds) rfl (h.not_frozen hi hholds)
  | finished hi hstage =>
    have hholds := Task.holds_of_putting hstage
    exact .goesOn (h.alone hi hholds) rfl (h.not_frozen hi hholds)
  | failed hi hstage =>
    have hholds := Task.holds_of_putting hstage
    exact .goesOn (h.alone hi hholds) rfl (h.not_frozen hi hholds)
  | froze hfree => exact ⟨h.exclusive, fun _ => hfree.2⟩
  | thawed hfrozen => exact ⟨h.exclusive, fun hf => nomatch hf⟩
  | installed config => exact ⟨h.exclusive, h.frozen⟩

theorem kept_step (h : Kept stored s) (hreads : ReadsRetained s) (m : Move) (hfirst : boundFirst s m = true) :
    Kept stored (step s m) := by
  have hdoes := step_does s m
  generalize step s m = s' at hdoes ⊢
  cases hdoes with
  | nothing => exact h
  | @called c w hw => exact @Kept.begins stored s h ⟨w, .waiting, true⟩ rfl (fun i hp => hp) _
  | @refused c w hw => exact @Kept.begins stored s h ⟨w, .answered (refusedDeleted w), true⟩ rfl (fun i _ => trivial) _
  | cancelled hi => exact h.cancel hi
  | lockedRead hi hstage hfree hheld hread => exact h.lock hi hstage hfree
  | @locked i t hi hstage hfree hheld =>
    have hset : ((s.lock i t).advance i t .reading).tasks[i]? = some { t with stage := .reading } := by
      change (s.tasks.set i { t with stage := .reading })[i]? = _
      rw [List.getElem?_set_self (List.getElem?_eq_some_iff.mp hi).1]
    rw [lock_change]
    refine (h.lock hi hstage hfree).change hset rfl (fun r hr => h.held_of_free hfree.2 hr) fun next hnext => ?_
    refine h.base hfree.2 hheld (fun hbound => ?_) hnext
    simpa [boundFirst, hi, hbound] using hfirst
  | @retained i t hi hstage =>
    have hread := hreads t (List.mem_of_getElem? hi) hstage
    have hne := h.order_ne_nil hi (Task.holds_of_reading hstage)
    have hheld := h.holds (fun r hr => hr) (fun hnil => absurd hnil hne) (s.log ++ [.read s.provider s.durable])
    exact hheld.change hi hstage (fun r hr => hr) fun next hnext => Write.on_readRetained hread _ hnext
  | readFailed hi hstage => exact h.readFail hi hstage _
  | landed hi hstage => exact h.land hi hstage
  | finished hi hstage => exact h.finish hi hstage
  | failed hi hstage => exact h.fail hi (Task.holds_of_putting hstage) _
  | froze hfree =>
    exact ⟨⟨h.exclusive, fun _ => hfree.2⟩, h.placed, h.ordered, h.nodup, h.sublist, h.held, h.first, h.folded, h.config⟩
  | thawed hfrozen =>
    refine ⟨⟨h.exclusive, ?_⟩, h.placed, h.ordered, h.nodup, h.sublist, ?_, fun _ => rfl, h.folded, h.config⟩
    · intro hf
      cases hf
    · intro r hr
      cases hr
  | installed config =>
    refine ⟨⟨h.exclusive, h.frozen⟩, h.placed, h.ordered, h.nodup, h.sublist, h.held, h.first, h.folded, fun r hr => ?_⟩
    change some (s.config.getD config) = some r.config
    rw [h.config r hr]
    rfl

end Invariant

section Deleted

variable {s : Writer} {i : Nat} {t : Task}

def Event.isDeleted : Event → Bool
  | deleted => true
  | _ => false

def Event.isPut : Event → Bool
  | put _ _ _ _ => true
  | _ => false

/-- A write that passed the hook and has not changed the record. -/
def Task.queued (t : Task) : Bool :=
  match t.stage with
  | .waiting => true
  | .reading => true
  | _ => false

/-- The hook first answers true with no write waiting for the lock or reading, and answers true from then on. -/
def deletedLast (s : Writer) : Move → Bool
  | .calls c deleted =>
    c.write.isNone ||
      if deleted then s.log.any Event.isDeleted || !s.tasks.any Task.queued else !s.log.any Event.isDeleted
  | _ => true

/-- Once the hook answered true no write is left to change the record, and no put began after it. -/
structure Ended (s : Writer) : Prop where
  quiet : s.log.any Event.isDeleted = true → s.tasks.any Task.queued = false
  log : s.log.Pairwise fun a b => a.isDeleted = true → b.isPut = false

theorem Ended.undeleted (h : Ended s) (hi : s.tasks[i]? = some t) (hqueued : t.queued = true) :
    s.log.any Event.isDeleted = false := by
  by_contra hdeleted
  have hnone := h.quiet (Bool.eq_true_of_not_eq_false hdeleted)
  rw [List.any_eq_false] at hnone
  exact hnone t (List.mem_of_getElem? hi) hqueued

/-- Nothing the hook did is undone by an event that is neither its answer nor a put begun after it. -/
theorem pairwise_note {log : List Event} (h : log.Pairwise fun a b => a.isDeleted = true → b.isPut = false) {e : Event}
    (he : e.isPut = true → log.any Event.isDeleted = false) :
    (log ++ [e]).Pairwise fun a b => a.isDeleted = true → b.isPut = false := by
  rw [List.pairwise_append]
  refine ⟨h, List.pairwise_singleton _ _, fun a ha b hb hdeleted => ?_⟩
  rw [List.mem_singleton.mp hb]
  by_contra hput
  have hnone := he (Bool.eq_true_of_not_eq_false hput)
  rw [List.any_eq_false] at hnone
  exact hnone a ha hdeleted

theorem any_queued_set {stage : Stage} (h : s.tasks.any Task.queued = false)
    (hstage : ({ t with stage := stage } : Task).queued = false) :
    (s.tasks.set i { t with stage := stage }).any Task.queued = false := by
  rw [List.any_eq_false] at h ⊢
  refine forall_mem_set h ?_
  rw [hstage]
  exact Bool.false_ne_true

/-- A task that goes on, with nothing logged. -/
theorem Ended.advance (h : Ended s) {s' : Writer} {stage : Stage} (hlog : s'.log = s.log)
    (htasks : s'.tasks = s.tasks.set i { t with stage := stage })
    (hstage : ({ t with stage := stage } : Task).queued = false) : Ended s' := by
  refine ⟨fun hd => ?_, hlog ▸ h.log⟩
  rw [htasks]
  exact any_queued_set (h.quiet (hlog ▸ hd)) hstage

/-- A write that the hook has not stopped changes the record. -/
theorem ended_change (h : Ended s) (hundeleted : s.log.any Event.isDeleted = false) : Ended (s.change i t) := by
  rcases change_cases s i t with ⟨e, -, hchange⟩ | ⟨next, -, ⟨-, hchange⟩ | ⟨-, hchange⟩⟩
  · rw [hchange]
    exact h.advance rfl rfl rfl
  · rw [hchange]
    exact h.advance rfl rfl rfl
  · rw [hchange]
    refine ⟨fun hd => ?_, pairwise_note h.log fun _ => hundeleted⟩
    change (s.log ++ [_]).any Event.isDeleted = true at hd
    rw [List.any_append, hundeleted] at hd
    cases hd

theorem ended_step (h : Ended s) (m : Move) (hlast : deletedLast s m = true) : Ended (step s m) := by
  have hdoes := step_does s m
  generalize step s m = s' at hdoes ⊢
  cases hdoes with
  | nothing => exact h
  | @called c w hw =>
    have hundeleted : s.log.any Event.isDeleted = false := by simpa [deletedLast, hw] using hlast
    refine ⟨fun hd => ?_, h.log⟩
    change s.log.any Event.isDeleted = true at hd
    rw [hundeleted] at hd
    cases hd
  | @refused c w hw =>
    have hquiet : s.tasks.any Task.queued = false := by
      cases hd : s.log.any Event.isDeleted with
      | true => exact h.quiet hd
      | false => simpa [deletedLast, hw, hd] using hlast
    refine ⟨fun _ => ?_, pairwise_note h.log fun hput => by cases hput⟩
    change (s.tasks ++ [_]).any Task.queued = false
    rw [List.any_append, hquiet]
    rfl
  | @cancelled i t hi =>
    refine ⟨fun hd => ?_, h.log⟩
    have hquiet := h.quiet hd
    rw [List.any_eq_false] at hquiet ⊢
    exact forall_mem_set hquiet (hquiet t (List.mem_of_getElem? hi))
  | @lockedRead i t hi hstage hfree hheld hread =>
    have hundeleted := h.undeleted hi (by unfold Task.queued; rw [hstage])
    refine ⟨fun hd => ?_, h.log⟩
    change s.log.any Event.isDeleted = true at hd
    rw [hundeleted] at hd
    cases hd
  | @locked i t hi hstage hfree hheld =>
    have hundeleted := h.undeleted hi (by unfold Task.queued; rw [hstage])
    exact ended_change ⟨h.quiet, h.log⟩ hundeleted
  | @retained i t hi hstage =>
    have hundeleted := h.undeleted hi (by unfold Task.queued; rw [hstage])
    have hread : (s.log ++ [Event.read s.provider s.durable]).any Event.isDeleted = false := by
      rw [List.any_append, hundeleted]
      rfl
    refine ended_change ⟨fun hd => ?_, pairwise_note h.log fun hput => by cases hput⟩ hread
    change (s.log ++ [_]).any Event.isDeleted = true at hd
    rw [hread] at hd
    cases hd
  | readFailed hi hstage => exact h.advance rfl rfl rfl
  | landed hi hstage => exact h.advance rfl rfl rfl
  | finished hi hstage => exact h.advance rfl rfl rfl
  | failed hi hstage => exact h.advance rfl rfl rfl
  | froze hfree => exact ⟨h.quiet, h.log⟩
  | thawed hfrozen =>
    refine ⟨fun hd => h.quiet ?_, pairwise_note h.log fun hput => by cases hput⟩
    change (s.log ++ [_]).any Event.isDeleted = true at hd
    rw [List.any_append] at hd
    simpa [Event.isDeleted] using hd
  | installed config => exact ⟨h.quiet, h.log⟩

end Deleted

/-- A write in the store is of a put that landed, or of a write that answered. -/
theorem Kept.settled {stored : Option NodeRecord} {s : Writer} (h : Kept stored s) {p : Nat × Write} (hp : p ∈ s.applied) :
    ∃ t, s.tasks[p.1]? = some t ∧ t.write = p.2 ∧ (t.landed = true ∨ ∃ answer, t.stage = .answered answer) := by
  obtain ⟨t, ht, hw⟩ := h.ordered p (h.sublist.subset hp)
  refine ⟨t, ht, hw, ?_⟩
  have hplaced := h.placed p.1 t ht
  have hnotLast : ¬ ∃ before, s.order = before ++ [(p.1, t.write)] ∧ s.applied.Sublist before := by
    rintro ⟨before, horder, hsub⟩
    have hnodup := h.nodup
    rw [horder, List.map_append, List.map_singleton, List.nodup_append] at hnodup
    exact hnodup.2.2 p.1 (List.mem_map_of_mem (hsub.subset hp)) p.1 (List.mem_singleton_self _) rfl
  unfold Task.Placed at hplaced
  cases hstage : t.stage with
  | waiting =>
    rw [hstage] at hplaced
    exact absurd rfl (hplaced p (h.sublist.subset hp))
  | reading =>
    rw [hstage] at hplaced
    exact absurd hplaced hnotLast
  | putting next landed =>
    cases landed with
    | true =>
      left
      unfold Task.landed
      rw [hstage]
    | false =>
      rw [hstage] at hplaced
      exact absurd hplaced.1 hnotLast
  | answered answer => exact Or.inr ⟨answer, rfl⟩

/-- In a run whose bound takes the lock first, the durable record is the fold, in the order the lock was taken in, of every
change that answered Ok and of some others, each once, and the config held is the last record's written with Ok. Where the
hook first answers true with no write queued, and true from then on, no put begins after it. -/
theorem acknowledged_changes_kept (stores : String → Option NodeRecord) (provider : String) {moves : List Move}
    (hfirst : RunOk step (fun s m => boundFirst s m = true) (Writer.new stores provider) moves) :
    let s := moves.foldl step (Writer.new stores provider)
    (s.applied.Sublist s.order ∧ (s.order.map Prod.fst).Nodup ∧
      (∀ i t r, s.tasks[i]? = some t → t.stage = .answered (.ok r) → (i, t.write) ∈ s.applied) ∧
      (∀ p ∈ s.applied, ∃ t, s.tasks[p.1]? = some t ∧ t.write = p.2 ∧
        (t.landed = true ∨ ∃ answer, t.stage = .answered answer)) ∧
      s.durable = (s.applied.map Prod.snd).foldl Write.on (stores provider)) ∧
    (∀ r, lastOk s.order s.tasks = some r → s.config = some r.config) ∧
    (RunOk step (fun s m => deletedLast s m = true) (Writer.new stores provider) moves →
      s.log.Pairwise fun a b => a.isDeleted = true → b.isPut = false) := by
  intro s
  have hinv : Kept (stores provider) s ∧ ReadsRetained s := by
    refine hfirst.invariant (I := fun s => Kept (stores provider) s ∧ ReadsRetained s) ?_
      ⟨kept_new stores provider, fun t ht => by cases ht⟩
    intro s m hs hm
    exact ⟨kept_step hs.1 hs.2 m hm, readsRetained_step hs.2 m⟩
  refine ⟨⟨hinv.1.sublist, hinv.1.nodup, ?_, fun p hp => hinv.1.settled hp, hinv.1.folded⟩, hinv.1.config, ?_⟩
  · intro i t r hi hstage
    have hplaced := hinv.1.placed i t hi
    unfold Task.Placed at hplaced
    rw [hstage] at hplaced
    exact hplaced
  · intro hlast
    have hended : Ended s := by
      refine hlast.invariant (I := Ended) (fun s m hs hm => ended_step hs m hm) ⟨fun hd => ?_, List.Pairwise.nil⟩
      cases hd
    exact hended.log

/-- The record a node starts with. -/
def startedRecord : NodeRecord :=
  ⟨"node-1", "mesh-1", "a", "node", "birth-1", .starting, "endpoint-1", "127.0.0.1:4500", [],
    ⟨"d1", .process, "local", .process 7 1⟩, none, none, none, none, ⟨none, none⟩, none, [("k", "0")], ∅⟩

def configured (v : String) : Command :=
  .entry startedRecord ⟨[("k", v)], ∅⟩

/-- A start, and a write whose put is issued; another waits for the lock as the hook answers true to a third; then the second
takes it. -/
def overtakenMoves : List Move :=
  [.calls (.bound startedRecord) false, .locks 0, .lands 0, .answers 0, .calls (configured "1") false,
    .calls (configured "2") false, .locks 1, .calls (.state startedRecord .pending) true, .lands 1, .answers 1, .locks 2]

/-- The put of a write queued on the lock begins after the hook answered true. -/
theorem put_begins_after_deleted :
    ¬ (overtakenMoves.foldl step (Writer.new (fun _ => none) "file")).log.Pairwise
      fun a b => a.isDeleted = true → b.isPut = false := by
  decide +kernel

/-- A start, a write whose put landed and answered an error, its caller cancelled, and one after it; and one that the hook
refuses with none queued. -/
def resolvedMoves : List Move :=
  [.calls (.bound startedRecord) false, .locks 0, .lands 0, .answers 0, .calls (configured "1") false, .locks 1, .cancels 1,
    .lands 1, .fails 1 (.io "nodes" "lost"), .calls (.state startedRecord .pending) false, .locks 2, .reads 2, .lands 2,
    .answers 2, .calls (configured "2") true]

theorem resolvedMoves_kept :
    (resolvedMoves.foldl step (Writer.new (fun _ => none) "file")).config = some [("k", "1")] ∧
    (resolvedMoves.foldl step (Writer.new (fun _ => none) "file")).durable
      = some { startedRecord with state := .pending, config := [("k", "1")] } ∧
    (resolvedMoves.foldl step (Writer.new (fun _ => none) "file")).log.Pairwise
      fun a b => a.isDeleted = true → b.isPut = false := by
  have hfirst : RunOk step (fun s m => boundFirst s m = true) (Writer.new (fun _ => none) "file") resolvedMoves := by
    decide +kernel
  have hlast : RunOk step (fun s m => deletedLast s m = true) (Writer.new (fun _ => none) "file") resolvedMoves := by
    decide +kernel
  obtain ⟨⟨-, -, -, -, hfold⟩, hconfig, hlog⟩ := acknowledged_changes_kept (fun _ => none) "file" hfirst
  refine ⟨hconfig { startedRecord with state := .pending, config := [("k", "1")] } (by decide +kernel), ?_, hlog hlast⟩
  rw [hfold]
  decide +kernel

end DistributedMesh.Properties
