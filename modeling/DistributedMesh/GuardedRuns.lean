import Mathlib.Data.List.Basic
import Mathlib.Tactic.Common

namespace GuardedRuns

variable {S X : Type} {step : S → X → S} {Ok : S → X → Prop}

/-- Every step of the run meets its condition, in the state it is taken in. -/
def RunOk (step : S → X → S) (Ok : S → X → Prop) : S → List X → Prop
  | _, [] => True
  | s, x :: xs => Ok s x ∧ RunOk step Ok (step s x) xs

instance RunOk.decidable [∀ s x, Decidable (Ok s x)] : ∀ (s : S) (xs : List X), Decidable (RunOk step Ok s xs)
  | _, [] => inferInstanceAs (Decidable True)
  | s, x :: xs =>
    have := RunOk.decidable (step s x) xs
    inferInstanceAs (Decidable (Ok s x ∧ RunOk step Ok (step s x) xs))

theorem runOk_append (s : S) (xs ys : List X) :
    RunOk step Ok s (xs ++ ys) ↔ RunOk step Ok s xs ∧ RunOk step Ok (xs.foldl step s) ys := by
  induction xs generalizing s with
  | nil => simp [RunOk]
  | cons x xs ih =>
    rw [List.cons_append, RunOk, RunOk, ih, List.foldl_cons, and_assoc]

/-- A run that meets a condition meets a weaker one. -/
theorem RunOk.imp {P : S → X → Prop} (h : ∀ s x, Ok s x → P s x) {s : S} {xs : List X} (hrun : RunOk step Ok s xs) :
    RunOk step P s xs := by
  induction xs generalizing s with
  | nil => trivial
  | cons x xs ih => exact ⟨h s x hrun.1, ih hrun.2⟩

/-- What every step that meets its condition keeps of the steps up to it, a run keeps of all its steps. -/
theorem RunOk.along {I : List X → S → Prop} (hstep : ∀ xs s x, I xs s → Ok s x → I (xs ++ [x]) (step s x)) {s : S}
    {before xs : List X} (hs : I before s) (h : RunOk step Ok s xs) : I (before ++ xs) (xs.foldl step s) := by
  induction xs generalizing s before with
  | nil => rwa [List.append_nil]
  | cons x xs ih =>
    have hrest := ih (hstep before s x hs h.1) h.2
    rwa [List.append_assoc, List.singleton_append] at hrest

/-- What every step that meets its condition keeps, a run keeps. -/
theorem RunOk.invariant {I : S → Prop} (hstep : ∀ s x, I s → Ok s x → I (step s x)) {s : S}
    {xs : List X} (hs : I s) (h : RunOk step Ok s xs) : I (xs.foldl step s) := by
  induction xs generalizing s with
  | nil => exact hs
  | cons x xs ih => exact ih (hstep s x hs h.1) h.2

/-- What every step keeps, every run keeps. -/
theorem invariant_run {I : S → Prop} (hstep : ∀ s x, I s → I (step s x)) {s : S} (hs : I s) (xs : List X) :
    I (xs.foldl step s) := by
  induction xs generalizing s with
  | nil => exact hs
  | cons x xs ih => exact ih (hstep s x hs)

/-- The state a step of the run is taken in, and that the step meets its condition there. -/
theorem RunOk.at {I : S → Prop} (hstep : ∀ s x, I s → Ok s x → I (step s x)) {s : S}
    {before after : List X} {x : X} (hs : I s) (h : RunOk step Ok s (before ++ x :: after)) :
    I (before.foldl step s) ∧ Ok (before.foldl step s) x := by
  obtain ⟨hbefore, hx, _⟩ := (runOk_append s before (x :: after)).mp h
  exact ⟨hbefore.invariant hstep hs, hx⟩

section Tasks

variable {T : Type} {tasks : List T} {i : Nat} {new : T}

/-- A task of a list of tasks, one of which moved on. -/
theorem getElem?_of_set {j : Nat} {task : T} (h : (tasks.set i new)[j]? = some task) :
    j = i ∧ task = new ∨ j ≠ i ∧ tasks[j]? = some task := by
  rw [List.getElem?_set] at h
  split at h
  next heq =>
    split at h
    next => exact .inl ⟨heq.symm, (Option.some.inj h).symm⟩
    next => cases h
  next hne => exact .inr ⟨Ne.symm hne, h⟩

/-- A task of a list of tasks after one began. -/
theorem getElem?_of_append {j : Nat} {task : T} (h : (tasks ++ [new])[j]? = some task) :
    j < tasks.length ∧ tasks[j]? = some task ∨ j = tasks.length ∧ task = new := by
  rw [List.getElem?_append] at h
  split at h
  next hlt => exact .inl ⟨hlt, h⟩
  next hge =>
    obtain ⟨hlt, rfl⟩ := List.getElem?_eq_some_iff.mp h
    rw [List.length_singleton] at hlt
    exact .inr ⟨by omega, by simp⟩

/-- What holds of the tasks, and of one as it moved on, holds of all of them then. -/
theorem forall_mem_set {P : T → Prop} (h : ∀ task ∈ tasks, P task) (hnew : P new) : ∀ task ∈ tasks.set i new, P task := by
  intro task hm
  rcases List.mem_or_eq_of_mem_set hm with hm | rfl
  · exact h task hm
  · exact hnew

theorem forall_getElem?_set {P : Nat → T → Prop} (h : ∀ j task, j ≠ i → tasks[j]? = some task → P j task) (hnew : P i new) :
    ∀ j task, (tasks.set i new)[j]? = some task → P j task := by
  intro j task hj
  obtain ⟨rfl, rfl⟩ | ⟨hne, hj⟩ := getElem?_of_set hj
  · exact hnew
  · exact h j task hne hj

theorem getElem?_set_new {old : T} (hi : tasks[i]? = some old) : (tasks.set i new)[i]? = some new :=
  List.getElem?_set_self (List.getElem?_eq_some_iff.mp hi).1

theorem mem_set_self {old : T} (hi : tasks[i]? = some old) : new ∈ tasks.set i new :=
  List.mem_of_getElem? (getElem?_set_new hi)

/-- A task other than the one that moved on stays. -/
theorem mem_set_of_mem {old task : T} (hi : tasks[i]? = some old) (hmem : task ∈ tasks) (hne : task ≠ old) :
    task ∈ tasks.set i new := by
  obtain ⟨j, hj⟩ := List.mem_iff_getElem?.mp hmem
  have hij : i ≠ j := by
    rintro rfl
    exact hne (Option.some.inj (hj.symm.trans hi))
  have hset : (tasks.set i new)[j]? = some task := by
    rw [List.getElem?_set_ne hij]
    exact hj
  exact List.mem_of_getElem? hset

/-- What holds of a task holds of one as a task moves on, where it is kept as that one does. -/
theorem exists_mem_set {P : T → Prop} {old : T} (hi : tasks[i]? = some old) (h : ∃ task ∈ tasks, P task)
    (hnew : P old → P new) : ∃ task ∈ tasks.set i new, P task := by
  obtain ⟨task, hmem, htask⟩ := h
  by_cases heq : task = old
  · subst heq
    exact ⟨new, mem_set_self hi, hnew htask⟩
  · exact ⟨task, mem_set_of_mem hi hmem heq, htask⟩

end Tasks

section Locks

variable {T K : Type} {holds : T → Option K} {tasks : List T} {i : Nat} {old new : T}

/-- No two tasks hold one lock. -/
def Exclusive (holds : T → Option K) (tasks : List T) : Prop :=
  ∀ (i j : Nat) (a b : T) (k : K), tasks[i]? = some a → tasks[j]? = some b → holds a = some k → holds b = some k → i = j

/-- A lock that no task holds. -/
def LockFree (holds : T → Option K) (tasks : List T) (k : K) : Prop := ∀ task ∈ tasks, holds task ≠ some k

instance [DecidableEq K] (k : K) : Decidable (LockFree holds tasks k) :=
  inferInstanceAs (Decidable (∀ task ∈ tasks, holds task ≠ some k))

theorem exclusive_nil : Exclusive holds [] := by
  intro i j a b k ha
  simp at ha

/-- A task moves on with the lock it held, with one that was free, or with none. -/
theorem Exclusive.set (h : Exclusive holds tasks) (hi : tasks[i]? = some old)
    (hnew : ∀ k, holds new = some k → holds old = some k ∨ LockFree holds tasks k) : Exclusive holds (tasks.set i new) := by
  intro j l a b k ha hb hka hkb
  obtain ⟨hj, hanew⟩ | ⟨hj, hawas⟩ := getElem?_of_set ha
  · obtain ⟨hl, -⟩ | ⟨hl, hbwas⟩ := getElem?_of_set hb
    · omega
    · subst hj hanew
      rcases hnew k hka with hold | hfree
      · exact h j l old b k hi hbwas hold hkb
      · exact absurd hkb (hfree b (List.mem_of_getElem? hbwas))
  · obtain ⟨hl, hbnew⟩ | ⟨hl, hbwas⟩ := getElem?_of_set hb
    · subst hl hbnew
      rcases hnew k hkb with hold | hfree
      · exact h j l a old k hawas hi hka hold
      · exact absurd hka (hfree a (List.mem_of_getElem? hawas))
    · exact h j l a b k hawas hbwas hka hkb

/-- A task begins, with a lock that was free or with none. -/
theorem Exclusive.append_of_free (h : Exclusive holds tasks) (hnew : ∀ k, holds new = some k → LockFree holds tasks k) :
    Exclusive holds (tasks ++ [new]) := by
  intro j l a b k ha hb hka hkb
  obtain ⟨-, hawas⟩ | ⟨hj, hanew⟩ := getElem?_of_append ha
  · obtain ⟨-, hbwas⟩ | ⟨-, hbnew⟩ := getElem?_of_append hb
    · exact h j l a b k hawas hbwas hka hkb
    · exact absurd hka (hnew k (hbnew ▸ hkb) a (List.mem_of_getElem? hawas))
  · obtain ⟨-, hbwas⟩ | ⟨hl, -⟩ := getElem?_of_append hb
    · exact absurd hkb (hnew k (hanew ▸ hka) b (List.mem_of_getElem? hbwas))
    · omega

/-- A task that begins holds nothing. -/
theorem Exclusive.append (h : Exclusive holds tasks) (hnew : holds new = none) : Exclusive holds (tasks ++ [new]) := by
  refine h.append_of_free fun k hk => ?_
  rw [hnew] at hk
  cases hk

/-- The lock of a task that let it go is free. -/
theorem Exclusive.free_of_set (h : Exclusive holds tasks) (hi : tasks[i]? = some old) {k : K} (hk : holds old = some k)
    (hnew : holds new ≠ some k) : LockFree holds (tasks.set i new) k := by
  intro task hm hkt
  obtain ⟨j, hj⟩ := List.mem_iff_getElem?.mp hm
  obtain ⟨-, rfl⟩ | ⟨hne, hj⟩ := getElem?_of_set hj
  · exact hnew hkt
  · exact hne (h j i task old k hj hi hkt hk)

end Locks

end GuardedRuns
