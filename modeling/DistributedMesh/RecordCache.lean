import DistributedMesh.GuardedRuns
import Mathlib.Logic.Function.Basic

namespace DistributedMesh.Records

open GuardedRuns

/-- What sets one kind of records apart: the state whose moves are events, and whether a fill that finds a listed record
gone forgets its copy (the meshes' does, the Fabric's keeps it). -/
structure Kind (V S : Type) where
  stateOf : V → S
  forgets : Bool

/-- One call of `update_mesh` or `update_fabric`. -/
structure Update (K V : Type) where
  key : K
  base : Option V
  change : V → V

/-- Where an update is. -/
inductive UpdateStage (V : Type) where
  /-- It waits for the record's lock. -/
  | waiting
  /-- No copy is held: storage is asked for the record. -/
  | reading
  /-- Its put is issued, over the record before it (`none`: it is new), and has landed or not. -/
  | putting (before : Option V) (record : V) (landed : Bool)
  /-- Storage answered: the event of the record's move is appended. -/
  | moving (record : V)

/-- Where a fill is. -/
inductive FillStage where
  | listing
  /-- It waits for the lock of its next record. -/
  | waiting
  /-- It reads that record again under its lock. -/
  | reading
deriving DecidableEq

inductive Task (K V : Type) where
  | update (u : Update K V) (stage : UpdateStage V)
  | fill (left : List K) (stage : FillStage)
  /-- A put whose caller was dropped, or answered an error, that still lands. -/
  | orphan (u : Update K V) (record : V)
  | finished

variable {K V S : Type}

/-- The record whose lock a task holds. -/
def Task.holds : Task K V → Option K
  | update _ .waiting => none
  | update u _ => some u.key
  | fill (k :: _) .reading => some k
  | _ => none

/-- The records of one kind: in storage, and the copies their writer holds; the calls on them; and the updates of each
record that landed, in the order they did. -/
structure Cache (K V : Type) where
  stored : K → Option V
  held : K → Option V
  tasks : List (Task K V)
  landed : K → List (Update K V)

/-- What happens next. -/
inductive Move (K V : Type) where
  | updates (u : Update K V)
  | fills
  /-- A fill is answered the records that are there. -/
  | lists (i : Nat) (keys : List K)
  | locks (i : Nat)
  | reads (i : Nat)
  | readFails (i : Nat)
  | lands (i : Nat)
  | answers (i : Nat)
  /-- Storage answers an error: its line may be in the file, or `pending`, for the file's next append to write. -/
  | refuses (i : Nat) (pending : Bool)
  | moved (i : Nat)
  | drops (i : Nat)

section Steps

variable [DecidableEq K] [DecidableEq V] [DecidableEq S]

def Cache.set (s : Cache K V) (i : Nat) (task : Task K V) : Cache K V := { s with tasks := s.tasks.set i task }

def Cache.hold (s : Cache K V) (k : K) (v : V) : Cache K V := { s with held := Function.update s.held k (some v) }

def Cache.forget (s : Cache K V) (k : K) : Cache K V := { s with held := Function.update s.held k none }

/-- The change is applied to the record before it, or to the base where there is none, and put where that moved it. -/
def Cache.apply (s : Cache K V) (i : Nat) (u : Update K V) (before : Option V) (r : V) : Cache K V :=
  if u.change r ≠ r ∨ before = none then s.set i (.update u (.putting before (u.change r) false))
  else (s.hold u.key (u.change r)).set i .finished

/-- A put lands. -/
def Cache.land (s : Cache K V) (u : Update K V) (record : V) : Cache K V :=
  { s with
    stored := Function.update s.stored u.key (some record)
    landed := Function.update s.landed u.key (s.landed u.key ++ [u]) }

/-- A fill goes on to its next record. -/
def fillNext : List K → Task K V
  | [] => .finished
  | keys => .fill keys .waiting

/-- Whether the move of a record is an event. -/
def Kind.moves (kind : Kind V S) (before : Option V) (record : V) : Bool :=
  match before with
  | none => true
  | some b => decide (kind.stateOf b ≠ kind.stateOf record)

def step (kind : Kind V S) (s : Cache K V) : Move K V → Cache K V
  | .updates u => { s with tasks := s.tasks ++ [.update u .waiting] }
  | .fills => { s with tasks := s.tasks ++ [.fill [] .listing] }
  | .lists i keys =>
    match s.tasks[i]? with
    | some (.fill _ .listing) => if ∀ k ∈ keys, (s.stored k).isSome then s.set i (fillNext keys) else s
    | _ => s
  | .locks i =>
    match s.tasks[i]? with
    | some (.update u .waiting) =>
      if LockFree Task.holds s.tasks u.key then
        match s.held u.key with
        | some r => s.apply i u (some r) r
        | none => s.set i (.update u .reading)
      else s
    | some (.fill (k :: left) .waiting) =>
      if LockFree Task.holds s.tasks k then s.set i (.fill (k :: left) .reading) else s
    | _ => s
  | .reads i =>
    match s.tasks[i]? with
    | some (.update u .reading) =>
      match s.stored u.key, u.base with
      | some r, _ => s.apply i u (some r) r
      | none, some b => s.apply i u none b
      | none, none => s.set i .finished
    | some (.fill (k :: left) .reading) =>
      match s.stored k with
      | some r => (s.hold k r).set i (fillNext left)
      | none => if kind.forgets then (s.forget k).set i (fillNext left) else s.set i (fillNext left)
    | _ => s
  | .readFails i =>
    match s.tasks[i]? with
    | some (.update _ .reading) => s.set i .finished
    | some (.fill _ .listing) => s.set i .finished
    | some (.fill _ .reading) => s.set i .finished
    | _ => s
  | .lands i =>
    match s.tasks[i]? with
    | some (.update u (.putting before record false)) =>
      (s.land u record).set i (.update u (.putting before record true))
    | some (.orphan u record) => (s.land u record).set i .finished
    | _ => s
  | .answers i =>
    match s.tasks[i]? with
    | some (.update u (.putting before record true)) =>
      if kind.moves before record then s.set i (.update u (.moving record))
      else (s.hold u.key record).set i .finished
    | _ => s
  | .refuses i pending =>
    match s.tasks[i]? with
    | some (.update u (.putting _ record false)) => s.set i (if pending then .orphan u record else .finished)
    | some (.update _ (.putting _ _ true)) => s.set i .finished
    | _ => s
  | .moved i =>
    match s.tasks[i]? with
    | some (.update u (.moving record)) => (s.hold u.key record).set i .finished
    | _ => s
  | .drops i =>
    match s.tasks[i]? with
    | some (.update u (.putting _ record false)) => s.set i (.orphan u record)
    | some (.orphan _ _) => s
    | some _ => s.set i .finished
    | none => s

end Steps

/-- A cache that holds nothing, over the records storage has. -/
def Cache.new (stored : K → Option V) : Cache K V := ⟨stored, fun _ => none, [], fun _ => []⟩

/-- What an update makes of the record it lands on. -/
def Update.on (r : Option V) (u : Update K V) : Option V :=
  match r with
  | some r => some (u.change r)
  | none => u.base.map u.change

/-- The record whose put landed and whose copy is not replaced yet. -/
def Task.landedKey : Task K V → Option K
  | update u (.putting _ _ true) => some u.key
  | update u (.moving _) => some u.key
  | _ => none

/-- A caller is not dropped with its put issued and the copy not replaced, unless the put landed and no copy is held; nor is
it answered an error by a put that landed over a copy held, or that lands later. -/
def spares (s : Cache K V) : Move K V → Bool
  | .refuses i pending =>
    match s.tasks[i]? with
    | some (.update u (.putting _ _ landed)) => if landed then (s.held u.key).isNone else !pending
    | _ => true
  | .drops i =>
    match s.tasks[i]? with
    | some (.update u (.putting _ _ landed)) => landed && (s.held u.key).isNone
    | some (.update u (.moving _)) => (s.held u.key).isNone
    | _ => true
  | _ => true

/-- What a task knows of the record in storage while it holds its lock. -/
def Task.Knows (stored : K → Option V) : Task K V → Prop
  | update u (.putting before record false) => stored u.key = before ∧ u.on before = some record
  | update u (.putting _ record true) => stored u.key = some record
  | update u (.moving record) => stored u.key = some record
  | orphan _ _ => False
  | _ => True

/-- Storage is the fold of what landed, and a copy is what storage holds, but where a task is about to replace it. -/
structure Faithful (stored : K → Option V) (s : Cache K V) : Prop where
  exclusive : Exclusive Task.holds s.tasks
  knows : ∀ task ∈ s.tasks, task.Knows s.stored
  held : ∀ k v, s.held k = some v → s.stored k = some v ∨ ∃ task ∈ s.tasks, task.landedKey = some k
  folded : ∀ k, s.stored k = (s.landed k).foldl Update.on (stored k)

section Invariant

variable {stored : K → Option V} {s : Cache K V} {i : Nat} {old new : Task K V} {k : K} {v : V}

theorem Task.holds_of_landedKey {task : Task K V} (h : task.landedKey = some k) : task.holds = some k := by
  cases task with
  | update u stage =>
    cases stage with
    | putting before record landed =>
      cases landed with
      | true => exact h
      | false => cases h
    | moving record => exact h
    | waiting => cases h
    | reading => cases h
  | fill left stage => cases h
  | orphan u record => cases h
  | finished => cases h

/-- What a task knows is of the record whose lock it holds. -/
theorem Task.Knows.congr {task : Task K V} {stored' : K → Option V} (h : task.Knows stored)
    (hsame : ∀ k, task.holds = some k → stored' k = stored k) : task.Knows stored' := by
  cases task with
  | update u stage =>
    cases stage with
    | putting before record landed =>
      cases landed with
      | true => exact (hsame u.key rfl).trans h
      | false => exact ⟨(hsame u.key rfl).trans h.1, h.2⟩
    | moving record => exact (hsame u.key rfl).trans h
    | waiting => trivial
    | reading => trivial
  | fill left stage => trivial
  | orphan u record => exact h
  | finished => trivial

theorem faithful_new (stored : K → Option V) : Faithful stored (Cache.new stored) :=
  ⟨exclusive_nil, by simp [Cache.new], by simp [Cache.new], fun _ => rfl⟩

/-- A task moves on, and storage and the copies stay. -/
theorem Faithful.set (h : Faithful stored s) (hi : s.tasks[i]? = some old)
    (hlock : ∀ k, new.holds = some k → old.holds = some k ∨ LockFree Task.holds s.tasks k) (hknows : new.Knows s.stored)
    (hlanded : ∀ k, old.landedKey = some k → new.landedKey = some k ∨ s.held k = none) :
    Faithful stored (s.set i new) := by
  refine ⟨h.exclusive.set hi hlock, forall_mem_set h.knows hknows, fun k v hv => ?_, h.folded⟩
  refine (h.held k v hv).imp_right fun hkey => exists_mem_set hi hkey fun hold => ?_
  refine (hlanded k hold).resolve_right fun hnone => ?_
  rw [show (s.set i new).held = s.held from rfl, hnone] at hv
  cases hv

theorem fillNext_holds (keys : List K) : (fillNext keys : Task K V).holds = none := by
  cases keys <;> rfl

theorem fillNext_knows (keys : List K) : (fillNext keys : Task K V).Knows s.stored := by
  cases keys <;> trivial

/-- A task that ends, or goes on without a lock, leaves nothing to replace if no put of its landed. -/
theorem Faithful.release (h : Faithful stored s) (hi : s.tasks[i]? = some old) (hnew : new.holds = none)
    (hknows : new.Knows s.stored) (hlanded : ∀ k, old.landedKey = some k → s.held k = none) :
    Faithful stored (s.set i new) := by
  refine h.set hi (fun k hk => ?_) hknows fun k hk => Or.inr (hlanded k hk)
  rw [hnew] at hk
  cases hk

theorem faithful_begins (h : Faithful stored s) (hnew : new.holds = none) (hknows : new.Knows s.stored) :
    Faithful stored { s with tasks := s.tasks ++ [new] } := by
  refine ⟨h.exclusive.append hnew, ?_, fun k v hv => ?_, h.folded⟩
  · intro task hmem
    rcases List.mem_append.mp hmem with hmem | hmem
    · exact h.knows task hmem
    · rw [List.mem_singleton.mp hmem]
      exact hknows
  · rcases h.held k v hv with hs | ⟨task, hmem, hkey⟩
    · exact Or.inl hs
    · exact Or.inr ⟨task, List.mem_append_left _ hmem, hkey⟩

/-- While a task holds a record's lock and no put of it landed, the copy is what storage holds. -/
theorem Faithful.copy (h : Faithful stored s) (hfree : LockFree Task.holds s.tasks k) (hv : s.held k = some v) :
    s.stored k = some v := by
  rcases h.held k v hv with hs | ⟨task, hmem, hkey⟩
  · exact hs
  · exact absurd (Task.holds_of_landedKey hkey) (hfree task hmem)

variable [DecidableEq K]

/-- A task replaces its record's copy by what storage holds, and goes on without the lock. -/
theorem Faithful.hold (h : Faithful stored s) (hi : s.tasks[i]? = some old)
    (hlanded : ∀ k', old.landedKey = some k' → k' = k)
    (hstored : s.stored k = some v) (hnew : new.holds = none) (hknows : new.Knows s.stored) :
    Faithful stored ((s.hold k v).set i new) := by
  refine ⟨h.exclusive.set hi ?_, forall_mem_set h.knows hknows, fun k' v' hv => ?_, h.folded⟩
  · intro k' hk'
    rw [hnew] at hk'
    cases hk'
  · change Function.update s.held k (some v) k' = some v' at hv
    by_cases hk : k' = k
    · subst hk
      rw [Function.update_self] at hv
      cases hv
      exact Or.inl hstored
    · rw [Function.update_of_ne hk] at hv
      exact (h.held k' v' hv).imp_right fun hkey => exists_mem_set hi hkey fun hold => absurd (hlanded k' hold) hk

theorem Faithful.forget (h : Faithful stored s) : Faithful stored (s.forget k) := by
  refine ⟨h.exclusive, h.knows, fun k' v' hv => ?_, h.folded⟩
  change Function.update s.held k none k' = some v' at hv
  by_cases hk : k' = k
  · subst hk
    rw [Function.update_self] at hv
    cases hv
  · rw [Function.update_of_ne hk] at hv
    exact h.held k' v' hv

/-- A put lands, of the task that holds the record's lock: every other task knows other records. -/
theorem Faithful.land (h : Faithful stored s) {u : Update K V} {before : Option V} {record : V}
    (hi : s.tasks[i]? = some (.update u (.putting before record false))) :
    Faithful stored ((s.land u record).set i (.update u (.putting before record true))) := by
  obtain ⟨hbefore, hrecord⟩ := h.knows _ (List.mem_of_getElem? hi)
  have hother : ∀ k, k ≠ u.key → (s.land u record).stored k = s.stored k := fun k hk => Function.update_of_ne hk _ _
  refine ⟨h.exclusive.set hi fun k hk => Or.inl hk, ?_, fun k v hv => ?_, fun k => ?_⟩
  · intro task hmem
    obtain ⟨j, hj⟩ := List.mem_iff_getElem?.mp hmem
    obtain ⟨-, rfl⟩ | ⟨hji, hj⟩ := getElem?_of_set hj
    · exact Function.update_self _ _ _
    · refine (h.knows task (List.mem_of_getElem? hj)).congr fun k hk => hother k ?_
      rintro rfl
      exact hji (h.exclusive j i _ _ _ hj hi hk rfl)
  · by_cases hk : k = u.key
    · subst hk
      exact Or.inr ⟨_, mem_set_self hi, rfl⟩
    · exact (h.held k v hv).imp (hother k hk).trans fun hkey => exists_mem_set hi hkey nofun
  · by_cases hk : k = u.key
    · subst hk
      have hlanded : (s.land u record).landed u.key = s.landed u.key ++ [u] := Function.update_self _ _ _
      have hstored : (s.land u record).stored u.key = some record := Function.update_self _ _ _
      change (s.land u record).stored u.key = ((s.land u record).landed u.key).foldl Update.on (stored u.key)
      rw [hlanded, hstored, List.foldl_append, ← h.folded, hbefore]
      exact hrecord.symm
    · have hlanded : (s.land u record).landed k = s.landed k := Function.update_of_ne hk _ _
      change (s.land u record).stored k = ((s.land u record).landed k).foldl Update.on (stored k)
      rw [hlanded, hother k hk, h.folded k]

variable [DecidableEq V] {u : Update K V} {before : Option V} {r : V}

theorem Faithful.apply (h : Faithful stored s) (hi : s.tasks[i]? = some old) (hlanded : old.landedKey = none)
    (hlock : old.holds = some u.key ∨ LockFree Task.holds s.tasks u.key) (hbefore : s.stored u.key = before)
    (hr : before = some r ∨ before = none ∧ u.base = some r) : Faithful stored (s.apply i u before r) := by
  have hnone : ∀ k, old.landedKey ≠ some k := by
    intro k
    rw [hlanded]
    simp
  unfold Cache.apply
  split
  next =>
    refine h.set hi (fun k hk => ?_) ⟨hbefore, ?_⟩ fun k hk => absurd hk (hnone k)
    · cases hk
      exact hlock
    · rcases hr with rfl | ⟨rfl, hbase⟩
      · rfl
      · rw [Update.on, hbase]
        rfl
  next hsame =>
    rw [not_or, not_not] at hsame
    rcases hr with rfl | ⟨hnew, -⟩
    · rw [hsame.1]
      exact h.hold hi (fun k hk => absurd hk (hnone k)) hbefore rfl trivial
    · exact absurd hnew hsame.2

variable [DecidableEq S] {kind : Kind V S}

theorem faithful_locks (h : Faithful stored s) (i : Nat) : Faithful stored (step kind s (.locks i)) := by
  simp only [step]
  split
  next u hi =>
    split
    next hfree =>
      split
      next r hr => exact h.apply hi rfl (Or.inr hfree) (h.copy hfree hr) (Or.inl rfl)
      next =>
        refine h.set hi (fun k hk => ?_) trivial fun k hk => by cases hk
        cases hk
        exact Or.inr hfree
    next => exact h
  next k left hi =>
    split
    next hfree =>
      refine h.set hi (fun k' hk => ?_) trivial fun k' hk => by cases hk
      cases hk
      exact Or.inr hfree
    next => exact h
  next => exact h

theorem faithful_reads (h : Faithful stored s) (i : Nat) : Faithful stored (step kind s (.reads i)) := by
  simp only [step]
  split
  next u hi =>
    split
    next r hr => exact h.apply hi rfl (Or.inl rfl) hr (Or.inl rfl)
    next b hnone hbase => exact h.apply hi rfl (Or.inl rfl) hnone (Or.inr ⟨rfl, hbase⟩)
    next => exact h.release hi rfl trivial fun k hk => by cases hk
  next k left hi =>
    split
    next r hr => exact h.hold hi (fun k' hk => by cases hk) hr (fillNext_holds left) (fillNext_knows left)
    next =>
      split
      next => exact h.forget.release hi (fillNext_holds left) (fillNext_knows left) fun k' hk => by cases hk
      next => exact h.release hi (fillNext_holds left) (fillNext_knows left) fun k' hk => by cases hk
  next => exact h

theorem faithful_lands (h : Faithful stored s) (i : Nat) : Faithful stored (step kind s (.lands i)) := by
  simp only [step]
  split
  next u before record hi => exact h.land hi
  next u record hi => exact absurd (h.knows _ (List.mem_of_getElem? hi)) id
  next => exact h

theorem faithful_answers (h : Faithful stored s) (i : Nat) : Faithful stored (step kind s (.answers i)) := by
  simp only [step]
  split
  next u before record hi =>
    have hstored : s.stored u.key = some record := h.knows _ (List.mem_of_getElem? hi)
    split
    next => exact h.set hi (fun k hk => Or.inl hk) hstored fun k hk => Or.inl hk
    next =>
      refine h.hold hi (fun k hk => ?_) hstored rfl trivial
      cases hk
      rfl
  next => exact h

theorem faithful_moved (h : Faithful stored s) (i : Nat) : Faithful stored (step kind s (.moved i)) := by
  simp only [step]
  split
  next u record hi =>
    refine h.hold hi (fun k hk => ?_) (h.knows _ (List.mem_of_getElem? hi)) rfl trivial
    cases hk
    rfl
  next => exact h

/-- A caller dropped where the condition allows it takes no copy's replacement with it. -/
theorem faithful_drops (h : Faithful stored s) (i : Nat) (hspared : spares s (.drops i) = true) :
    Faithful stored (step kind s (.drops i)) := by
  simp only [step]
  simp only [spares] at hspared
  split
  next u before record hi =>
    simp only [hi, Bool.false_and] at hspared
    cases hspared
  next => exact h
  next task hput horphan hi =>
    refine h.release hi rfl trivial fun k hk => ?_
    cases task with
    | update u stage =>
      cases stage with
      | putting before record landed =>
        cases landed with
        | true =>
          cases hk
          simpa [hi] using hspared
        | false => cases hk
      | moving record =>
        cases hk
        simpa [hi] using hspared
      | waiting => cases hk
      | reading => cases hk
    | fill left stage => cases hk
    | orphan u record => cases hk
    | finished => cases hk
  next => exact h

theorem faithful_refuses (h : Faithful stored s) (i : Nat) {pending : Bool}
    (hspared : spares s (.refuses i pending) = true) : Faithful stored (step kind s (.refuses i pending)) := by
  simp only [step]
  simp only [spares] at hspared
  split
  next u before record hi =>
    have hnone : pending = false := by simpa [hi] using hspared
    rw [hnone]
    exact h.release hi rfl trivial fun k hk => by cases hk
  next u before record hi =>
    refine h.release hi rfl trivial fun k hk => ?_
    cases hk
    simpa [hi] using hspared
  next => exact h

/-- Every step that spares the callers of puts keeps storage and the copies faithful. -/
theorem faithful_step (h : Faithful stored s) (m : Move K V) (hspared : spares s m = true) :
    Faithful stored (step kind s m) := by
  cases m with
  | updates u => exact faithful_begins h rfl trivial
  | fills => exact faithful_begins h rfl trivial
  | lists i keys =>
    simp only [step]
    split
    next left hi =>
      split
      next => exact h.release hi (fillNext_holds keys) (fillNext_knows keys) fun k hk => by cases hk
      next => exact h
    next => exact h
  | locks i => exact faithful_locks h i
  | reads i => exact faithful_reads h i
  | readFails i =>
    simp only [step]
    split
    next u hi => exact h.release hi rfl trivial fun k hk => by cases hk
    next left hi => exact h.release hi rfl trivial fun k hk => by cases hk
    next left hi => exact h.release hi rfl trivial fun k hk => by cases hk
    next => exact h
  | lands i => exact faithful_lands h i
  | answers i => exact faithful_answers h i
  | refuses i pending => exact faithful_refuses h i hspared
  | moved i => exact faithful_moved h i
  | drops i => exact faithful_drops h i hspared

end Invariant

section Caches

variable {K' V' S' : Type}

/-- The records one admin writes: its meshes' and its Fabric's. -/
structure Caches (K V K' V' : Type) where
  meshes : Cache K V
  fabric : Cache K' V'

inductive CachesMove (K V K' V' : Type) where
  | mesh (m : Move K V)
  | fabric (m : Move K' V')

def meshKind (stateOf : V → S) : Kind V S := ⟨stateOf, true⟩

def fabricKind (stateOf : V → S) : Kind V S := ⟨stateOf, false⟩

def Caches.new (meshes : K → Option V) (fabric : K' → Option V') : Caches K V K' V' := ⟨.new meshes, .new fabric⟩

def Caches.spares (s : Caches K V K' V') : CachesMove K V K' V' → Prop
  | .mesh m => Records.spares s.meshes m = true
  | .fabric m => Records.spares s.fabric m = true

/-- No call on the records of a kind is under way. -/
def Cache.Quiet (s : Cache K V) : Prop := ∀ task ∈ s.tasks, task = .finished

theorem Faithful.quiet {stored : K → Option V} {s : Cache K V} (h : Faithful stored s) (hquiet : s.Quiet) {k : K} {v : V}
    (hv : s.held k = some v) : s.stored k = some v := by
  rcases h.held k v hv with hs | ⟨task, hmem, hkey⟩
  · exact hs
  · rw [hquiet task hmem] at hkey
    cases hkey

variable [DecidableEq K] [DecidableEq V] [DecidableEq S] [DecidableEq K'] [DecidableEq V'] [DecidableEq S']

def Caches.step (stateOf : V → S) (fabricStateOf : V' → S') (s : Caches K V K' V') : CachesMove K V K' V' → Caches K V K' V'
  | .mesh m => { s with meshes := Records.step (meshKind stateOf) s.meshes m }
  | .fabric m => { s with fabric := Records.step (fabricKind fabricStateOf) s.fabric m }

/-- In a run whose callers are not dropped, or answered an error by a put that lands, with the copy not replaced, every record
in storage is the fold of the changes that landed, and with no call under way a copy held is the record in storage. -/
theorem landed_changes_kept (stateOf : V → S) (fabricStateOf : V' → S') (meshes : K → Option V) (fabric : K' → Option V')
    {moves : List (CachesMove K V K' V')}
    (hrun : RunOk (Caches.step stateOf fabricStateOf) Caches.spares (Caches.new meshes fabric) moves) :
    let s := moves.foldl (Caches.step stateOf fabricStateOf) (Caches.new meshes fabric)
    (∀ k, s.meshes.stored k = (s.meshes.landed k).foldl Update.on (meshes k)) ∧
    (∀ k, s.fabric.stored k = (s.fabric.landed k).foldl Update.on (fabric k)) ∧
    (s.meshes.Quiet → ∀ k v, s.meshes.held k = some v → s.meshes.stored k = some v) ∧
    (s.fabric.Quiet → ∀ k v, s.fabric.held k = some v → s.fabric.stored k = some v) := by
  have hinv : Faithful meshes (moves.foldl (Caches.step stateOf fabricStateOf) (Caches.new meshes fabric)).meshes ∧
      Faithful fabric (moves.foldl (Caches.step stateOf fabricStateOf) (Caches.new meshes fabric)).fabric := by
    refine hrun.invariant (I := fun s => Faithful meshes s.meshes ∧ Faithful fabric s.fabric) ?_
      ⟨faithful_new meshes, faithful_new fabric⟩
    intro s m hs hspared
    cases m with
    | mesh m => exact ⟨faithful_step hs.1 m hspared, hs.2⟩
    | fabric m => exact ⟨hs.1, faithful_step hs.2 m hspared⟩
  exact ⟨hinv.1.folded, hinv.2.folded, fun hquiet k v hv => hinv.1.quiet hquiet hv,
    fun hquiet k v hv => hinv.2.quiet hquiet hv⟩

/-- The record 7 of the meshes as a run leaves it, from a store that has each record at 0. -/
def ranMeshes (moves : List (Move Nat Nat)) : Cache Nat Nat :=
  ((moves.map CachesMove.mesh).foldl (Caches.step (fun _ => ()) (fun _ => ()))
    (Caches.new (fun _ => some 0) (fun _ : Nat => (none : Option Nat)))).meshes

/-- A copy is held; an update adds 1 and its caller is dropped once its put landed. -/
def droppedMoves : List (Move Nat Nat) :=
  [.updates ⟨7, none, id⟩, .locks 0, .reads 0, .updates ⟨7, none, (· + 1)⟩, .locks 1, .lands 1, .drops 1]

/-- Another update then adds 10. -/
def overwritingMoves : List (Move Nat Nat) :=
  droppedMoves ++ [.updates ⟨7, none, (· + 10)⟩, .locks 2, .lands 2, .answers 2]

/-- The next update builds on the copy from before the landed change and overwrites it, and with no call under way the copy
held is not the record in storage. -/
theorem landed_change_overwritten :
    (ranMeshes overwritingMoves).stored 7 = some 10 ∧
    ((ranMeshes overwritingMoves).landed 7).foldl Update.on (some 0) = some 11 ∧
    ((ranMeshes droppedMoves).tasks.all fun task => task matches .finished) = true ∧
    (ranMeshes droppedMoves).held 7 = some 0 ∧ (ranMeshes droppedMoves).stored 7 = some 1 := by decide

/-- A caller dropped while it waits for the lock, one whose put is refused, and two updates whose callers stay. -/
def sparedMoves : List (CachesMove Nat Nat Nat Nat) :=
  ([.updates ⟨7, none, (· + 1)⟩, .locks 0, .reads 0, .updates ⟨7, none, (· + 5)⟩, .drops 1, .lands 0, .answers 0,
    .updates ⟨7, none, (· + 3)⟩, .locks 2, .refuses 2 false, .updates ⟨7, none, (· + 10)⟩, .locks 3, .lands 3,
    .answers 3] : List (Move Nat Nat)).map .mesh

theorem sparedMoves_kept :
    (sparedMoves.foldl (Caches.step (fun _ => ()) (fun _ => ())) (Caches.new (fun _ => some 0) (fun _ => none))).meshes.stored 7
      = some 11 := by
  have hrun : RunOk (Caches.step (fun _ => ()) (fun _ => ())) Caches.spares
      (Caches.new (fun _ => some 0) (fun _ => none)) sparedMoves := by
    simp only [sparedMoves, List.map_cons, List.map_nil, RunOk, Caches.spares]
    decide
  obtain ⟨hfold, -⟩ := landed_changes_kept (fun _ => ()) (fun _ => ()) _ _ hrun
  rw [hfold 7]
  decide

end Caches

end DistributedMesh.Records
