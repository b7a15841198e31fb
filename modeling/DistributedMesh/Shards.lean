import Mathlib.Data.List.Basic
import Mathlib.Tactic.Common

namespace Shards

variable {S X A K : Type}

/-- A system whose calls each name one shard: a call reads and writes its own shard alone. -/
structure Sharded (step : S → X → S × A) (shard : X → K) (Agree : K → S → S → Prop) : Prop where
  equiv : ∀ k, Equivalence (Agree k)
  frame : ∀ s x k, shard x ≠ k → Agree k s (step s x).1
  own : ∀ s t x, Agree (shard x) s t →
    (step s x).2 = (step t x).2 ∧ Agree (shard x) (step s x).1 (step t x).1

def run (step : S → X → S × A) (s : S) (xs : List X) : S := xs.foldl (fun s x => (step s x).1) s

theorem run_append (step : S → X → S × A) (s : S) (xs ys : List X) :
    run step s (xs ++ ys) = run step (run step s xs) ys := List.foldl_append

theorem run_concat (step : S → X → S × A) (s : S) (xs : List X) (x : X) :
    run step s (xs ++ [x]) = (step (run step s xs) x).1 := run_append step s xs [x]

/-- The answers to the calls that name `k`. -/
def answersOf [DecidableEq K] (step : S → X → S × A) (shard : X → K) (k : K) : S → List X → List A
  | _, [] => []
  | s, x :: xs =>
    if shard x = k then (step s x).2 :: answersOf step shard k (step s x).1 xs
    else answersOf step shard k (step s x).1 xs

section Sharded

variable {step : S → X → S × A} {shard : X → K} {Agree : K → S → S → Prop}

theorem Sharded.stepped (h : Sharded step shard Agree) {k : K} {s t : S} (hst : Agree k s t) (x : X) :
    Agree k (step s x).1 (step t x).1 := by
  by_cases hx : shard x = k
  · subst hx
    exact (h.own s t x hst).2
  · have hs := (h.equiv k).symm (h.frame s x k hx)
    exact (h.equiv k).trans hs ((h.equiv k).trans hst (h.frame t x k hx))

theorem Sharded.ran (h : Sharded step shard Agree) {k : K} {s t : S} (hst : Agree k s t)
    (xs : List X) : Agree k (run step s xs) (run step t xs) := by
  induction xs generalizing s t with
  | nil => exact hst
  | cons x xs ih => exact ih (h.stepped hst x)

/-- States that agree on a shard answer its calls alike, whatever else is called. -/
theorem Sharded.answers [DecidableEq K] (h : Sharded step shard Agree) {k : K} {s t : S} (hst : Agree k s t)
    (xs : List X) : answersOf step shard k s xs = answersOf step shard k t xs := by
  induction xs generalizing s t with
  | nil => rfl
  | cons x xs ih =>
    have hrest := ih (h.stepped hst x)
    by_cases hx : shard x = k
    · subst hx
      simp only [answersOf, if_true, (h.own s t x hst).1, hrest]
    · simp only [answersOf, if_neg hx, hrest]

/-- Calls that name other shards leave a shard as it is. -/
theorem Sharded.untouched (h : Sharded step shard Agree) {k : K} (s : S) {xs : List X}
    (hxs : ∀ x ∈ xs, shard x ≠ k) : Agree k s (run step s xs) := by
  induction xs generalizing s with
  | nil => exact (h.equiv k).refl s
  | cons x xs ih =>
    have hx := h.frame s x k (hxs x List.mem_cons_self)
    exact (h.equiv k).trans hx (ih (step s x).1 fun y hy => hxs y (List.mem_cons_of_mem x hy))

end Sharded

end Shards
