import Mathlib.Data.List.Basic
import Mathlib.Tactic.Common

namespace Pieces

section Cutting

variable {α : Type} {width n : Nat} {l piece : List α}

/-- A list cut into `n` pieces of a width, the last of what is left of it. -/
def cut (width : Nat) : Nat → List α → List (List α)
  | 0, _ => []
  | n + 1, l => l.take width :: cut width n (l.drop width)

theorem length_cut (width n : Nat) (l : List α) : (cut width n l).length = n := by
  induction n generalizing l with
  | zero => rfl
  | succ n ih => rw [cut, List.length_cons, ih]

theorem flatten_cut (h : l.length ≤ n * width) : (cut width n l).flatten = l := by
  induction n generalizing l with
  | zero =>
    rw [Nat.zero_mul, Nat.le_zero, List.length_eq_zero_iff] at h
    rw [h, cut, List.flatten_nil]
  | succ n ih =>
    have hrest : (l.drop width).length ≤ n * width := by
      rw [List.length_drop]
      rw [Nat.add_mul, Nat.one_mul] at h
      omega
    rw [cut, List.flatten_cons, ih hrest, List.take_append_drop]

theorem length_le_of_mem_cut (h : piece ∈ cut width n l) : piece.length ≤ width := by
  induction n generalizing l with
  | zero => cases h
  | succ n ih =>
    rcases List.mem_cons.mp h with rfl | hrest
    · exact List.length_take_le width l
    · exact ih hrest

end Cutting

section Widest

/-- The search that halves what is left between a width that fits and one that may. -/
def widest (fits : Nat → Bool) (lo hi : Nat) : Nat :=
  if lo < hi then
    let mid := (lo + hi + 1) / 2
    if fits mid then widest fits mid hi else widest fits lo (mid - 1)
  else lo
termination_by hi - lo

variable {fits : Nat → Bool} {lo hi : Nat}

/-- What holds of where the search begins, and of every width that fits, holds of where it ends. -/
theorem widest_induction {P : Nat → Prop} (hlo : P lo) (hfits : ∀ m, fits m = true → P m) : P (widest fits lo hi) := by
  fun_induction widest fits lo hi with
  | case1 lo hi hlt mid hmid ih => exact ih (hfits mid hmid)
  | case2 lo hi hlt mid hmid ih => exact ih hlo
  | case3 lo hi hge => exact hlo

theorem widest_le (h : lo ≤ hi) : widest fits lo hi ≤ hi := by
  fun_induction widest fits lo hi with
  | case1 lo hi hlt mid hmid ih => exact ih (by omega)
  | case2 lo hi hlt mid hmid ih =>
    have hle := ih (by omega)
    omega
  | case3 lo hi hge => exact h

end Widest

section Filling

variable {α : Type} {pieces : List α} {slots : List (Option α)} {i : Nat} {a : α}

/-- Slots for pieces, each empty or with its own. -/
structure Filled (pieces : List α) (slots : List (Option α)) : Prop where
  length : slots.length = pieces.length
  own : ∀ (i : Nat) (a : α), slots[i]? = some (some a) → pieces[i]? = some a

theorem filled_empty (pieces : List α) : Filled pieces (List.replicate pieces.length none) := by
  refine ⟨List.length_replicate, ?_⟩
  intro i a h
  rw [List.getElem?_replicate] at h
  split at h <;> cases h

theorem Filled.set (h : Filled pieces slots) (hi : pieces[i]? = some a) : Filled pieces (slots.set i (some a)) := by
  refine ⟨by rw [List.length_set, h.length], ?_⟩
  intro j b hj
  rw [List.getElem?_set] at hj
  split at hj
  next heq =>
    split at hj
    next =>
      cases hj
      rw [← heq]
      exact hi
    next => cases hj
  next => exact h.own j b hj

/-- With none of the slots empty they are the pieces. -/
theorem Filled.complete (h : Filled pieces slots) (hfull : ∀ s ∈ slots, s.isSome) : slots.filterMap id = pieces := by
  have hslots : slots = pieces.map some := by
    apply List.ext_getElem?
    intro i
    rw [List.getElem?_map]
    by_cases hi : i < slots.length
    · obtain ⟨a, ha⟩ := Option.isSome_iff_exists.mp (hfull _ (List.getElem_mem hi))
      have hslot : slots[i]? = some (some a) := by rw [List.getElem?_eq_getElem hi, ha]
      rw [hslot, h.own i a hslot]
      rfl
    · rw [List.getElem?_eq_none (by omega), List.getElem?_eq_none (by rw [← h.length]; omega)]
      rfl
  rw [hslots, List.filterMap_map]
  simp

end Filling

end Pieces
