import Mathlib.Order.Lattice
import Mathlib.Order.Defs.LinearOrder
import Mathlib.Data.List.Basic
import Mathlib.Tactic.Common

namespace Registers

variable {α κ : Type} [LinearOrder κ]

/-- What offering a value to a register may do: it is held in place of no greater one, or the one held
stands, which is no less. -/
inductive Offered (key : α → κ) : Option α → α → Option α → Prop where
  | taken {held : Option α} {x : α} (h : ∀ a, held = some a → key a ≤ key x) : Offered key held x (some x)
  | kept {a x : α} (h : key x ≤ key a) : Offered key (some a) x (some a)

/-- `m` is one of the values, and none of them is greater. -/
structure Latest (key : α → κ) (xs : List α) (m : α) : Prop where
  mem : m ∈ xs
  le : ∀ x ∈ xs, key x ≤ key m

variable {key : α → κ} {offer : Option α → α → Option α} {xs ys : List α} {a b m n : α}

/-- A register never goes back, and never empties. -/
theorem Offered.forward {x : α} {held' : Option α} (h : Offered key (some a) x held') :
    ∃ b, held' = some b ∧ key a ≤ key b := by
  cases h with
  | taken h => exact ⟨x, rfl, h a rfl⟩
  | kept _ => exact ⟨a, rfl, le_refl _⟩

theorem foldl_forward (hoffer : ∀ held x, Offered key held x (offer held x)) (xs : List α) (a : α) :
    ∃ b, xs.foldl offer (some a) = some b ∧ key a ≤ key b := by
  induction xs generalizing a with
  | nil => exact ⟨a, rfl, le_refl _⟩
  | cons x xs ih =>
    obtain ⟨c, hc, hac⟩ := (hoffer (some a) x).forward
    obtain ⟨b, hb, hcb⟩ := ih c
    exact ⟨b, by rw [List.foldl_cons, hc]; exact hb, hac.trans hcb⟩

/-- What a register holds after its values is the one it had or one of them, and no less than any. -/
theorem foldl_latest (hoffer : ∀ held x, Offered key held x (offer held x)) (xs : List α) (a : α) :
    ∃ b, xs.foldl offer (some a) = some b ∧ Latest key (a :: xs) b := by
  induction xs generalizing a with
  | nil =>
    refine ⟨a, rfl, List.mem_singleton_self a, fun x hx => ?_⟩
    rw [List.mem_singleton.mp hx]
  | cons x xs ih =>
    rw [List.foldl_cons]
    generalize hheld : offer (some a) x = held
    have hx := hoffer (some a) x
    rw [hheld] at hx
    cases hx with
    | taken h =>
      obtain ⟨b, hb, hmem, hle⟩ := ih x
      refine ⟨b, hb, List.mem_cons_of_mem a hmem, fun y hy => ?_⟩
      rcases List.mem_cons.mp hy with rfl | hy
      · exact (h y rfl).trans (hle x List.mem_cons_self)
      · exact hle y hy
    | kept h =>
      obtain ⟨b, hb, hmem, hle⟩ := ih a
      have hab := hle a List.mem_cons_self
      refine ⟨b, hb, ?_, fun y hy => ?_⟩
      · rcases List.mem_cons.mp hmem with rfl | hmem
        · exact List.mem_cons_self
        · exact List.mem_cons_of_mem a (List.mem_cons_of_mem x hmem)
      · rcases List.mem_cons.mp hy with rfl | hy
        · exact hab
        · rcases List.mem_cons.mp hy with rfl | hy
          · exact h.trans hab
          · exact hle y (List.mem_cons_of_mem a hy)

/-- An empty register ends with the latest of its values. -/
theorem foldl_none (hoffer : ∀ held x, Offered key held x (offer held x)) (xs : List α) :
    (xs = [] ∧ xs.foldl offer none = none) ∨ ∃ m, xs.foldl offer none = some m ∧ Latest key xs m := by
  cases xs with
  | nil => exact Or.inl ⟨rfl, rfl⟩
  | cons x xs =>
    have hfirst : offer none x = some x := by
      generalize hheld : offer none x = held
      have hx := hoffer none x
      rw [hheld] at hx
      cases hx
      rfl
    obtain ⟨m, hm, hlatest⟩ := foldl_latest hoffer xs x
    exact Or.inr ⟨m, by rw [List.foldl_cons, hfirst]; exact hm, hlatest⟩

theorem Latest.key_eq (hm : Latest key xs m) (hn : Latest key ys n) (h : ∀ x, x ∈ xs ↔ x ∈ ys) : key m = key n :=
  le_antisymm (hn.le m ((h m).mp hm.mem)) (hm.le n ((h n).mpr hn.mem))

/-- Two registers given the same values, in any order and with any repeats, end alike, where no two of
the values have one key. -/
theorem foldl_eq_of_mem_iff (hoffer : ∀ held x, Offered key held x (offer held x))
    (hinj : ∀ x ∈ xs, ∀ y ∈ xs, key x = key y → x = y) (h : ∀ x, x ∈ xs ↔ x ∈ ys) :
    xs.foldl offer none = ys.foldl offer none := by
  rcases foldl_none hoffer xs with ⟨rfl, hnone⟩ | ⟨m, hm, hlatest⟩
  · cases ys with
    | nil => rfl
    | cons y ys => exact absurd ((h y).mpr List.mem_cons_self) List.not_mem_nil
  · rcases foldl_none hoffer ys with ⟨rfl, -⟩ | ⟨n, hn, hlatest'⟩
    · exact absurd ((h m).mp hlatest.mem) List.not_mem_nil
    · rw [hm, hn, hinj m hlatest.mem n ((h n).mpr hlatest'.mem) (hlatest.key_eq hlatest' h)]

end Registers
