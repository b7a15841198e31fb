import Mathlib.Data.List.Basic

namespace Repeats

variable {A K : Type} [DecidableEq K] {key : A → Option K} {l : List A} {x : A} {k : K}

/-- One has the key of the other. -/
def sameKey (key : A → Option K) (a b : A) : Bool := (key a).isSome && key a == key b

/-- A list without what repeats the key of something before it; what has no key repeats nothing. -/
def firsts (key : A → Option K) (l : List A) : List A := l.eraseDupsBy (sameKey key)

/-- The keys of a list, each once. -/
def keys (key : A → Option K) (l : List A) : List K := (firsts key l).filterMap key

@[simp]
theorem firsts_nil : firsts key [] = [] := rfl

@[simp]
theorem keys_nil : keys key [] = [] := rfl

theorem loop_concat {r : A → A → Bool} (l kept : List A) (x : A) :
    List.eraseDupsBy.loop r (l ++ [x]) kept =
      if (List.eraseDupsBy.loop r l kept).any (r x) then List.eraseDupsBy.loop r l kept
      else List.eraseDupsBy.loop r l kept ++ [x] := by
  induction l generalizing kept with
  | nil =>
    simp only [List.nil_append, List.eraseDupsBy.loop, List.any_reverse]
    cases hany : kept.any (r x) with
    | true => simp
    | false => simp
  | cons a l ih =>
    simp only [List.cons_append, List.eraseDupsBy.loop]
    by_cases hany : kept.any (r a) = true
    · simpa only [hany] using ih kept
    · simpa only [hany] using ih (a :: kept)

theorem firsts_concat (l : List A) (x : A) :
    firsts key (l ++ [x]) = if (firsts key l).any (sameKey key x) then firsts key l else firsts key l ++ [x] :=
  loop_concat l [] x

theorem any_sameKey : (firsts key l).any (sameKey key x) = true ↔ ∃ k, key x = some k ∧ k ∈ keys key l := by
  rw [List.any_eq_true]
  refine ⟨?_, ?_⟩
  · rintro ⟨a, ha, hsame⟩
    obtain ⟨hsome, heq⟩ := Bool.and_eq_true_iff.mp hsame
    obtain ⟨k, hk⟩ := Option.isSome_iff_exists.mp hsome
    have hak : key a = some k := (eq_of_beq heq).symm.trans hk
    exact ⟨k, hk, List.mem_filterMap.mpr ⟨a, ha, hak⟩⟩
  · rintro ⟨k, hk, hmem⟩
    obtain ⟨a, ha, hak⟩ := List.mem_filterMap.mp hmem
    exact ⟨a, ha, by simp [sameKey, hk, hak]⟩

/-- Something whose key the list has is left out. -/
theorem firsts_repeated (hx : key x = some k) (hk : k ∈ keys key l) : firsts key (l ++ [x]) = firsts key l := by
  have hany : (firsts key l).any (sameKey key x) = true := any_sameKey.mpr ⟨k, hx, hk⟩
  rw [firsts_concat, if_pos hany]

/-- Something whose key the list has not comes last. -/
theorem firsts_new (h : ∀ k, key x = some k → k ∉ keys key l) : firsts key (l ++ [x]) = firsts key l ++ [x] := by
  have hany : ¬(firsts key l).any (sameKey key x) = true := by
    intro hany
    obtain ⟨k, hx, hk⟩ := any_sameKey.mp hany
    exact h k hx hk
  rw [firsts_concat, if_neg hany]

theorem keys_repeated (hx : key x = some k) (hk : k ∈ keys key l) : keys key (l ++ [x]) = keys key l := by
  rw [keys, firsts_repeated hx hk, keys]

theorem keys_new (h : ∀ k, key x = some k → k ∉ keys key l) : keys key (l ++ [x]) = keys key l ++ (key x).toList := by
  rw [keys, firsts_new h, List.filterMap_append, keys]
  cases hx : key x <;> simp [hx]

/-- The keys of a list are the keys of its elements. -/
theorem mem_keys_concat {k' : K} : k' ∈ keys key (l ++ [x]) ↔ k' ∈ keys key l ∨ key x = some k' := by
  by_cases h : ∃ k, key x = some k ∧ k ∈ keys key l
  · obtain ⟨k, hx, hk⟩ := h
    rw [keys_repeated hx hk]
    refine ⟨Or.inl, ?_⟩
    rintro (hmem | hx')
    · exact hmem
    · rw [hx] at hx'
      cases hx'
      exact hk
  · have hnew : ∀ k, key x = some k → k ∉ keys key l := by
      intro k hx hk
      exact h ⟨k, hx, hk⟩
    rw [keys_new hnew, List.mem_append, Option.mem_toList]

end Repeats
