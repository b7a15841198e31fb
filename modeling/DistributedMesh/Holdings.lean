import Mathlib.Logic.Basic

namespace Holdings

variable {K V O : Type} {table table' : K → Option V} {holding holding' : O → Option (K × V)} {who : O} {key : K} {v : V}

/-- What holders have held is in the table, and every key has one holder at most. -/
structure Owned (table : K → Option V) (holding : O → Option (K × V)) : Prop where
  held : ∀ o k v, holding o = some (k, v) → table k = some v
  once : ∀ o o' k v v', holding o = some (k, v) → holding o' = some (k, v') → o = o'

/-- Nothing new is held, and what is held stays in the table. -/
theorem Owned.keeps (h : Owned table holding) (hholding : ∀ o k v, holding' o = some (k, v) → holding o = some (k, v)) :
    Owned table holding' := by
  refine ⟨?_, ?_⟩
  · intro o k v ho
    exact h.held o k v (hholding o k v ho)
  · intro o o' k v v' ho ho'
    exact h.once o o' k v v' (hholding o k v ho) (hholding o' k v' ho')

/-- A holder lets its key go: it leaves the table, and nobody else held it. -/
theorem Owned.releases (h : Owned table holding) (hwho : holding who = some (key, v)) (hnone : holding' who = none)
    (hholding : ∀ o k v, holding' o = some (k, v) → holding o = some (k, v)) (htable : ∀ k, k ≠ key → table' k = table k) :
    Owned table' holding' := by
  have hkept := h.keeps hholding
  refine ⟨?_, hkept.once⟩
  intro o k w ho
  have hkey : k ≠ key := by
    rintro rfl
    have hsame : o = who := h.once o who k w v (hholding o k w ho) hwho
    rw [hsame, hnone] at ho
    cases ho
  rw [htable k hkey]
  exact hkept.held o k w ho

/-- A holder takes a key the table has not. -/
theorem Owned.opens (h : Owned table holding) (hfree : table key = none) (hwho : holding' who = some (key, v))
    (hholding : ∀ o, o ≠ who → holding' o = holding o) (hkey : table' key = some v)
    (htable : ∀ k, k ≠ key → table' k = table k) : Owned table' holding' := by
  have hother : ∀ o k w, o ≠ who → holding' o = some (k, w) → holding o = some (k, w) ∧ k ≠ key := by
    intro o k w hne ho
    rw [hholding o hne] at ho
    refine ⟨ho, ?_⟩
    rintro rfl
    rw [h.held o k w ho] at hfree
    cases hfree
  refine ⟨?_, ?_⟩
  · intro o k w ho
    by_cases hne : o = who
    · rw [hne, hwho] at ho
      cases ho
      exact hkey
    · obtain ⟨hwas, hk⟩ := hother o k w hne ho
      rw [htable k hk]
      exact h.held o k w hwas
  · intro o o' k w w' ho ho'
    by_cases hne : o = who
    · by_cases hne' : o' = who
      · rw [hne, hne']
      · rw [hne, hwho] at ho
        cases ho
        exact absurd rfl (hother o' key w' hne' ho').2
    · by_cases hne' : o' = who
      · rw [hne', hwho] at ho'
        cases ho'
        exact absurd rfl (hother o key w hne ho).2
      · exact h.once o o' k w w' (hother o k w hne ho).1 (hother o' k w' hne' ho').1

/-- A holder hands its key to another. -/
theorem Owned.hands (h : Owned table holding) (other : O) (hwho : holding who = some (key, v))
    (hother : holding' other = some (key, v)) (hnone : holding' who = none) (hholding : ∀ o, o ≠ who → o ≠ other → holding' o = holding o) :
    Owned table holding' := by
  classical
  have hleft : ∀ o p, holding' o = some p → o ≠ who := by
    rintro o p ho rfl
    rw [hnone] at ho
    cases ho
  -- Who held before what a holder holds now.
  have hfrom : ∀ o k w, holding' o = some (k, w) → holding (if o = other then who else o) = some (k, w) := by
    intro o k w ho
    by_cases heq : o = other
    · rw [if_pos heq, hwho, ← hother, ← heq]
      exact ho
    · rw [if_neg heq, ← hholding o (hleft o _ ho) heq]
      exact ho
  refine ⟨fun o k w ho => h.held _ k w (hfrom o k w ho), ?_⟩
  intro o o' k w w' ho ho'
  have hsame := h.once _ _ k w w' (hfrom o k w ho) (hfrom o' k w' ho')
  by_cases heq : o = other
  · by_cases heq' : o' = other
    · rw [heq, heq']
    · rw [if_pos heq, if_neg heq'] at hsame
      exact absurd hsame.symm (hleft o' _ ho')
  · by_cases heq' : o' = other
    · rw [if_neg heq, if_pos heq'] at hsame
      exact absurd hsame (hleft o _ ho)
    · rw [if_neg heq, if_neg heq'] at hsame
      exact hsame

end Holdings
