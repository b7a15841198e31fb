import DistributedMesh.KeyedMaps

namespace Tallies

open Std KeyedMaps

variable {α : Type} [DecidableEq α] {cmp : α → α → Ordering} [TransCmp cmp] [LawfulEqCmp cmp]
  {m s : ExtTreeMap α Nat cmp} {n k : α → Nat} {a : α}

/-- The map holds each number that is not zero, and no other. -/
def Counts (m : ExtTreeMap α Nat cmp) (n : α → Nat) : Prop := ∀ a : α, m[a]? = if n a = 0 then none else some (n a)

/-- One more of `a`. -/
def more (m : ExtTreeMap α Nat cmp) (a : α) : ExtTreeMap α Nat cmp := m.insert a ((m[a]?).getD 0 + 1)

/-- One fewer of `a`, whose entry leaves with its last; `none` where a zero would go below itself. -/
def less (m : ExtTreeMap α Nat cmp) (a : α) : Option (ExtTreeMap α Nat cmp) :=
  match m[a]? with
  | none => some m
  | some 0 => none
  | some (n + 1) => some (if n = 0 then m.erase a else m.insert a n)

/-- `spared` fewer of `a`, at most all of them. -/
def take (m : ExtTreeMap α Nat cmp) (a : α) (spared : Nat) : ExtTreeMap α Nat cmp :=
  match m[a]? with
  | none => m
  | some n => if n - spared = 0 then m.erase a else m.insert a (n - spared)

/-- The counts without those of another map. -/
def without (m s : ExtTreeMap α Nat cmp) : ExtTreeMap α Nat cmp := s.toList.foldl (fun m p => take m p.1 p.2) m

theorem isEmpty_more (m : ExtTreeMap α Nat cmp) (a : α) : (more m a).isEmpty = false := by
  have hget : (more m a)[a]? = some ((m[a]?).getD 0 + 1) := by rw [more, getElem?_insert_eq, if_pos rfl]
  by_contra hempty
  have hnone : more m a = ∅ := ExtTreeMap.isEmpty_iff.mp (by simpa using hempty)
  rw [hnone] at hget
  simp at hget

omit [LawfulEqCmp cmp] [DecidableEq α] in
theorem Counts.empty : Counts (∅ : ExtTreeMap α Nat cmp) fun _ => 0 := by
  intro a
  simp

omit [LawfulEqCmp cmp] [DecidableEq α] in
theorem Counts.congr (h : Counts m n) (hk : ∀ a, n a = k a) : Counts m k := by
  intro a
  rw [h a, hk a]

omit [LawfulEqCmp cmp] [DecidableEq α] in
theorem Counts.getD (h : Counts m n) (a : α) : (m[a]?).getD 0 = n a := by
  rw [h a]
  split
  next hzero => rw [hzero]; rfl
  next => rfl

theorem Counts.more (h : Counts m n) (a : α) : Counts (more m a) fun b => n b + if b = a then 1 else 0 := by
  intro b
  beta_reduce
  rw [Tallies.more, getElem?_insert_eq, h.getD]
  by_cases hb : a = b
  · subst hb
    simp
  · rw [if_neg hb, if_neg (Ne.symm hb), Nat.add_zero]
    exact h b

theorem Counts.less (h : Counts m n) (hpos : 0 < n a) :
    ∃ m', less m a = some m' ∧ Counts m' fun b => n b - if b = a then 1 else 0 := by
  obtain ⟨j, hj⟩ := Nat.exists_eq_succ_of_ne_zero (Nat.ne_of_gt hpos)
  have ha : m[a]? = some (j + 1) := by
    rw [h a, hj]
    rfl
  refine ⟨if j = 0 then m.erase a else m.insert a j, by rw [Tallies.less, ha], fun b => ?_⟩
  beta_reduce
  rw [getElem?_erase_or_insert]
  by_cases hb : a = b
  · subst hb
    have hleft : n a - (if a = a then 1 else 0) = j := by rw [if_pos rfl, hj]; rfl
    rw [hleft, if_pos rfl]
  · rw [if_neg hb, if_neg (Ne.symm hb), Nat.sub_zero, ← h b]

theorem Counts.take (h : Counts m n) (a : α) (spared : Nat) :
    Counts (take m a spared) fun b => n b - if b = a then spared else 0 := by
  intro b
  beta_reduce
  rw [Tallies.take, h a]
  by_cases hb : a = b
  · subst hb
    rw [if_pos rfl]
    by_cases hzero : n a = 0
    · rw [if_pos hzero, if_pos (by omega), h a, if_pos hzero]
    · simp only [if_neg hzero]
      rw [getElem?_erase_or_insert, if_pos rfl]
  · rw [if_neg (Ne.symm hb), Nat.sub_zero, ← h b]
    by_cases hzero : n a = 0
    · rw [if_pos hzero]
    · simp only [if_neg hzero]
      rw [getElem?_erase_or_insert, if_neg hb]

theorem Counts.foldl_take (h : Counts m n) {l : List (α × Nat)} (hkeys : (l.map Prod.fst).Nodup) :
    Counts (l.foldl (fun m p => Tallies.take m p.1 p.2) m) fun b => n b - (l.lookup b).getD 0 := by
  induction l generalizing m n with
  | nil => exact h
  | cons p l ih =>
    rw [List.map_cons, List.nodup_cons] at hkeys
    refine (ih (h.take p.1 p.2) hkeys.2).congr fun b => ?_
    rw [List.lookup_cons]
    by_cases hb : b = p.1
    · have hnone : l.lookup p.1 = none := by
        rw [List.lookup_eq_none_iff]
        intro q hq
        rw [bne_iff_ne]
        intro heq
        exact hkeys.1 (heq ▸ List.mem_map_of_mem hq)
      subst hb
      simp [hnone]
    · have hne : (b == p.1) = false := by simpa using hb
      rw [hne, if_neg hb, Nat.sub_zero]

/-- What is left is counted without what was taken. -/
theorem Counts.without (h : Counts m n) (hs : Counts s k) : Counts (without m s) fun a => n a - k a := by
  have hkeys : (s.toList.map Prod.fst).Nodup := by
    rw [ExtTreeMap.map_fst_toList_eq_keys]
    exact ExtTreeMap.nodup_keys
  refine (h.foldl_take hkeys).congr fun a => ?_
  have hlookup : s.toList.lookup a = s[a]? := by
    cases hget : s[a]? with
    | none =>
      rw [List.lookup_eq_none_iff]
      intro p hp
      have hmem := ExtTreeMap.mem_toList_iff_getElem?_eq_some.mp hp
      rw [bne_iff_ne]
      intro heq
      rw [← heq, hget] at hmem
      cases hmem
    | some v =>
      obtain ⟨before, after, hlist⟩ := List.append_of_mem (ExtTreeMap.mem_toList_iff_getElem?_eq_some.mpr hget)
      rw [List.lookup_eq_some_iff]
      refine ⟨before, after, hlist, fun p hp => ?_⟩
      rw [hlist, List.map_append, List.map_cons] at hkeys
      have hne := (List.nodup_append.mp hkeys).2.2 p.1 (List.mem_map_of_mem hp) a List.mem_cons_self
      simpa using Ne.symm hne
  rw [hlookup, hs.getD]

omit [DecidableEq α] in
/-- Nothing is counted just when the map is empty. -/
theorem Counts.isEmpty_iff (h : Counts m n) : m.isEmpty = true ↔ ∀ a, n a = 0 := by
  rw [ExtTreeMap.isEmpty_iff]
  constructor
  · intro hempty a
    have ha := h a
    rw [hempty] at ha
    by_contra hne
    rw [if_neg hne] at ha
    simp at ha
  · intro hzero
    refine ExtTreeMap.ext_getElem? fun a => ?_
    rw [h a, if_pos (hzero a)]
    simp

end Tallies
