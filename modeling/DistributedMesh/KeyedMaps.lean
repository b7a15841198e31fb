import Mathlib.Data.List.AList
import Mathlib.Data.List.Basic
import Mathlib.Data.List.Nodup
import Mathlib.Data.List.Perm.Subperm
import Mathlib.Data.List.Sort
import Mathlib.Tactic.Common

namespace KeyedMaps

open Std

variable {α β γ : Type} {cmp : α → α → Ordering} [TransCmp cmp] [LawfulEqCmp cmp]

theorem getElem?_insert_eq [DecidableEq α] (m : ExtTreeMap α β cmp) (k : α) (v : β) (a : α) :
    (m.insert k v)[a]? = if k = a then some v else m[a]? := by
  rw [ExtTreeMap.getElem?_insert]
  simp only [LawfulEqCmp.compare_eq_iff_eq]

theorem getElem?_erase_eq [DecidableEq α] (m : ExtTreeMap α β cmp) (k a : α) :
    (m.erase k)[a]? = if k = a then none else m[a]? := by
  rw [ExtTreeMap.getElem?_erase]
  simp only [LawfulEqCmp.compare_eq_iff_eq]

/-- An entry that leaves when it is empty. -/
theorem getElem?_erase_or_insert [DecidableEq α] (p : Prop) [Decidable p] (m : ExtTreeMap α β cmp) (k : α) (v : β) (a : α) :
    (if p then m.erase k else m.insert k v)[a]? = if k = a then if p then none else some v else m[a]? := by
  by_cases hp : p
  · rw [if_pos hp, if_pos hp, getElem?_erase_eq]
  · rw [if_neg hp, if_neg hp, getElem?_insert_eq]

theorem insert_congr [DecidableEq α] {m n : ExtTreeMap α β cmp} {a : α} (h : m[a]? = n[a]?) (k : α)
    (v : β) : (m.insert k v)[a]? = (n.insert k v)[a]? := by
  rw [getElem?_insert_eq, getElem?_insert_eq, h]

theorem erase_congr [DecidableEq α] {m n : ExtTreeMap α β cmp} {a : α} (h : m[a]? = n[a]?) (k : α) :
    (m.erase k)[a]? = (n.erase k)[a]? := by
  rw [getElem?_erase_eq, getElem?_erase_eq, h]

theorem mem_insert_map (m : ExtTreeMap α β cmp) (k : α) (v : β) (a : α) : a ∈ m.insert k v ↔ a = k ∨ a ∈ m := by
  rw [ExtTreeMap.mem_insert, LawfulEqCmp.compare_eq_iff_eq, eq_comm]

theorem mem_insert_set (s : ExtTreeSet α cmp) (k a : α) : a ∈ s.insert k ↔ a = k ∨ a ∈ s := by
  rw [ExtTreeSet.mem_insert, LawfulEqCmp.compare_eq_iff_eq, eq_comm]

theorem nodup_toList (s : ExtTreeSet α cmp) : s.toList.Nodup := by
  refine ExtTreeSet.distinct_toList.imp fun hne heq => hne ?_
  exact LawfulEqCmp.compare_eq_iff_eq.mpr heq

omit [LawfulEqCmp cmp] in
theorem mem_iff_getElem? (m : ExtTreeMap α β cmp) (k : α) : k ∈ m ↔ ∃ v, m[k]? = some v := by
  rw [ExtTreeMap.mem_iff_isSome_getElem?, Option.isSome_iff_exists]

/-- A list made of a map's entries, with nothing of any entry but one, is that one's. -/
theorem flatMap_toList_of_lookup {m : ExtTreeMap α β cmp} {k : α} {v : β} (h : m[k]? = some v) {f : α × β → List γ}
    (hf : ∀ e ∈ m.toList, e.1 ≠ k → f e = []) : m.toList.flatMap f = f (k, v) := by
  obtain ⟨before, after, hsplit⟩ := List.append_of_mem (ExtTreeMap.mem_toList_iff_getElem?_eq_some.mpr h)
  have hkeys := ExtTreeMap.distinct_keys_toList (t := m)
  rw [hsplit] at hf hkeys
  rw [hsplit, List.flatMap_append, List.flatMap_cons]
  have hbefore : before.flatMap f = [] := by
    refine List.flatMap_eq_nil_iff.mpr fun e he => hf e (List.mem_append_left _ he) fun heq => ?_
    refine (List.pairwise_append.mp hkeys).2.2 e he (k, v) List.mem_cons_self ?_
    exact LawfulEqCmp.compare_eq_iff_eq.mpr heq
  have hafter : after.flatMap f = [] := by
    refine List.flatMap_eq_nil_iff.mpr fun e he => ?_
    refine hf e (List.mem_append_right _ (List.mem_cons_of_mem _ he)) fun heq => ?_
    refine (List.pairwise_cons.mp (List.pairwise_append.mp hkeys).2.1).1 e he ?_
    exact LawfulEqCmp.compare_eq_iff_eq.mpr heq.symm
  rw [hbefore, hafter, List.nil_append, List.append_nil]

omit [LawfulEqCmp cmp] in
theorem mem_of_lookup {m : ExtTreeMap α β cmp} {k : α} {v : β} (h : m[k]? = some v) : k ∈ m :=
  (mem_iff_getElem? m k).mpr ⟨v, h⟩

omit [LawfulEqCmp cmp] in
theorem not_mem_of_lookup {m : ExtTreeMap α β cmp} {k : α} (h : m[k]? = none) : k ∉ m := by
  rw [mem_iff_getElem?, h]
  simp

/-- Values inserted one after another under their own keys: the last of a key stands. -/
def insertAll (key : β → α) (m : ExtTreeMap α β cmp) (l : List β) : ExtTreeMap α β cmp :=
  l.foldl (fun m v => m.insert (key v) v) m

theorem getElem?_insertAll [DecidableEq α] (key : β → α) (l : List β) (m : ExtTreeMap α β cmp)
    (a : α) : (insertAll key m l)[a]? = (l.reverse.find? fun v => key v = a).or m[a]? := by
  induction l generalizing m with
  | nil => rfl
  | cons v l ih =>
    rw [insertAll, List.foldl_cons]
    refine (ih _).trans ?_
    rw [getElem?_insert_eq, List.reverse_cons, List.find?_append, Option.or_assoc]
    by_cases h : key v = a
    · simp [h]
    · simp [h]

theorem mem_of_getElem?_insertAll [DecidableEq α] {key : β → α} {l : List β} {a : α} {v : β}
    (h : (insertAll key (∅ : ExtTreeMap α β cmp) l)[a]? = some v) : v ∈ l := by
  rw [getElem?_insertAll] at h
  have hfind : l.reverse.find? (fun w => key w = a) = some v := by simpa using h
  exact List.mem_reverse.mp (List.mem_of_find?_eq_some hfind)

/-- With distinct keys, a key holds its value. -/
theorem getElem?_insertAll_of_mem [DecidableEq α] {key : β → α} {l : List β}
    {m : ExtTreeMap α β cmp} {v : β} (hd : (l.map key).Nodup) (hv : v ∈ l) :
    (insertAll key m l)[key v]? = some v := by
  rw [getElem?_insertAll]
  have hfind : l.reverse.find? (fun w => key w = key v) = some v := by
    cases hf : l.reverse.find? (fun w => key w = key v) with
    | none =>
      rw [List.find?_eq_none] at hf
      exact absurd (hf v (List.mem_reverse.mpr hv)) (by simp)
    | some w =>
      have hw := List.mem_reverse.mp (List.mem_of_find?_eq_some hf)
      have hk : key w = key v := by simpa using List.find?_some hf
      rw [List.inj_on_of_nodup_map hd hw hv hk]
  rw [hfind]
  rfl

theorem getElem?_insertAll_of_not_mem [DecidableEq α] {key : β → α} {l : List β}
    {m : ExtTreeMap α β cmp} {a : α} (ha : a ∉ l.map key) : (insertAll key m l)[a]? = m[a]? := by
  rw [getElem?_insertAll]
  have hfind : l.reverse.find? (fun w => key w = a) = none := by
    rw [List.find?_eq_none]
    intro w hw he
    exact ha (List.mem_map.mpr ⟨w, List.mem_reverse.mp hw, by simpa using he⟩)
  rw [hfind]
  rfl

theorem getElem?_foldl_erase [DecidableEq α] (l : List α) (m : ExtTreeMap α β cmp) (a : α) :
    (l.foldl (fun m k => m.erase k) m)[a]? = if a ∈ l then none else m[a]? := by
  induction l generalizing m with
  | nil => simp
  | cons k l ih =>
    rw [List.foldl_cons, ih, getElem?_erase_eq]
    by_cases h : k = a
    · simp [h]
    · simp [h, Ne.symm h]

theorem getElem?_filter_eq (m : ExtTreeMap α β cmp) (p : β → Bool) (a : α) :
    (m.filter fun _ v => p v)[a]? = m[a]?.filter p := by
  rw [ExtTreeMap.getElem?_filter']

theorem map_eq_iff {δ : Type} (m n : ExtTreeMap α β cmp) (f : β → δ) :
    m.map (fun _ v => f v) = n.map (fun _ v => f v) ↔ ∀ a : α, m[a]?.map f = n[a]?.map f := by
  have hget : ∀ (t : ExtTreeMap α β cmp) (a : α), (t.map fun _ v => f v)[a]? = t[a]?.map f :=
    fun _ _ => ExtTreeMap.getElem?_map
  constructor
  · intro h a
    rw [← hget, h, hget]
  · intro h
    refine ExtTreeMap.ext_getElem? fun a => ?_
    rw [hget, hget, h a]

/-- The values in their keys' order. -/
def values (m : ExtTreeMap α β cmp) : List β := m.toList.map Prod.snd

theorem mem_values_iff (m : ExtTreeMap α β cmp) (v : β) : v ∈ values m ↔ ∃ k : α, m[k]? = some v := by
  simp [values, ExtTreeMap.mem_toList_iff_getElem?_eq_some]

/-- The first value in key order that satisfies `p`. -/
theorem find?_values_of_least {m : ExtTreeMap α β cmp} {p : β → Bool} {k : α} {v : β} (hk : m[k]? = some v)
    (hp : p v = true) (hleast : ∀ k' v', m[k']? = some v' → p v' = true → (cmp k k').isLE) :
    (values m).find? p = some v := by
  obtain ⟨before, after, hlist⟩ := List.append_of_mem (ExtTreeMap.mem_toList_iff_getElem?_eq_some.mpr hk)
  have hordered := ExtTreeMap.ordered_keys_toList (t := m)
  rw [hlist] at hordered
  have hbefore : ∀ q ∈ before, p q.2 = false := by
    intro q hq
    have hlt : cmp q.1 k = .lt := (List.pairwise_append.mp hordered).2.2 q hq (k, v) List.mem_cons_self
    have hmem : m[q.1]? = some q.2 := by
      rw [← ExtTreeMap.mem_toList_iff_getElem?_eq_some, hlist]
      exact List.mem_append_left _ hq
    by_contra hpq
    have hle := hleast q.1 q.2 hmem (by simpa using hpq)
    rw [OrientedCmp.gt_of_lt hlt] at hle
    cases hle
  rw [values, hlist, List.map_append, List.find?_append]
  have hnone : (before.map Prod.snd).find? p = none := by
    rw [List.find?_eq_none]
    intro w hw
    obtain ⟨q, hq, rfl⟩ := List.mem_map.mp hw
    simp [hbefore q hq]
  rw [hnone, List.map_cons, List.find?_cons_of_pos hp]
  rfl

/-- What a map of lists holds, an element at a time under its key. -/
def pairs (elems : β → List γ) (m : ExtTreeMap α β cmp) : List (α × γ) :=
  m.toList.flatMap fun p => (elems p.2).map fun x => (p.1, x)

/-- Every entry's own key before the key it stands under. -/
def inverted (own : β → γ) (m : ExtTreeMap α β cmp) : List (γ × α) := m.toList.map fun p => (own p.2, p.1)

theorem mem_pairs (elems : β → List γ) (m : ExtTreeMap α β cmp) (k : α) (x : γ) :
    (k, x) ∈ pairs elems m ↔ ∃ v, m[k]? = some v ∧ x ∈ elems v := by
  simp only [pairs, List.mem_flatMap, List.mem_map, Prod.mk.injEq, Prod.exists, ExtTreeMap.mem_toList_iff_getElem?_eq_some]
  constructor
  · rintro ⟨k', v, hv, x', hx, rfl, rfl⟩
    exact ⟨v, hv, hx⟩
  · rintro ⟨v, hv, hx⟩
    exact ⟨k, v, hv, x, hx, rfl, rfl⟩

theorem mem_inverted (own : β → γ) (m : ExtTreeMap α β cmp) (x : γ) (k : α) :
    (x, k) ∈ inverted own m ↔ ∃ v, m[k]? = some v ∧ own v = x := by
  simp only [inverted, List.mem_map, Prod.mk.injEq, Prod.exists, ExtTreeMap.mem_toList_iff_getElem?_eq_some]
  constructor
  · rintro ⟨k', v, hv, hx, rfl⟩
    exact ⟨v, hv, hx⟩
  · rintro ⟨v, hv, hx⟩
    exact ⟨k, v, hv, hx, rfl⟩

theorem nodup_pairs {elems : β → List γ} {m : ExtTreeMap α β cmp} (h : ∀ (k : α) (v : β), m[k]? = some v → (elems v).Nodup) :
    (pairs elems m).Nodup := by
  refine List.nodup_flatMap.mpr ⟨fun p hp => ?_, ?_⟩
  · exact (h p.1 p.2 (ExtTreeMap.mem_toList_iff_getElem?_eq_some.mp hp)).map fun _ _ heq => (Prod.mk.inj heq).2
  · refine ExtTreeMap.distinct_keys_toList.imp fun {a b} hne p ha hb => ?_
    obtain ⟨_, _, rfl⟩ := List.mem_map.mp ha
    obtain ⟨_, _, heq⟩ := List.mem_map.mp hb
    exact hne (LawfulEqCmp.compare_eq_iff_eq.mpr (Prod.mk.inj heq).1.symm)

omit [LawfulEqCmp cmp] in
theorem nodup_inverted (own : β → γ) (m : ExtTreeMap α β cmp) : (inverted own m).Nodup := by
  refine List.Nodup.of_map Prod.snd ?_
  rw [inverted, List.map_map]
  have hkeys : m.keys = m.toList.map (Prod.snd ∘ fun p => (own p.2, p.1)) := by
    rw [← ExtTreeMap.map_fst_toList_eq_keys]
    rfl
  rw [← hkeys]
  exact ExtTreeMap.nodup_keys

/-- An index that lists an element under a key just where the element's own key is that key lists
each element once. -/
theorem pairs_perm_inverted {elems : β → List γ} {δ : Type} {cmp' : γ → γ → Ordering} [TransCmp cmp'] [LawfulEqCmp cmp']
    {index : ExtTreeMap α β cmp} {m : ExtTreeMap γ δ cmp'} {own : δ → α}
    (hnodup : ∀ (k : α) (v : β), index[k]? = some v → (elems v).Nodup)
    (hlists : ∀ (k : α) (x : γ), (∃ v, index[k]? = some v ∧ x ∈ elems v) ↔ ∃ d, m[x]? = some d ∧ own d = k) :
    (pairs elems index).Perm (inverted own m) := by
  refine (List.perm_ext_iff_of_nodup (nodup_pairs hnodup) (nodup_inverted own m)).mpr ?_
  rintro ⟨k, x⟩
  rw [mem_pairs, mem_inverted]
  exact hlists k x

/-- A map that holds exactly the entries of a list in key order lists them. -/
theorem toList_eq_of_sorted {m : ExtTreeMap α β cmp} {l : List (α × β)}
    (hs : l.Pairwise fun a b => cmp a.1 b.1 = .lt) (hm : ∀ k v, m[k]? = some v ↔ (k, v) ∈ l) :
    m.toList = l := by
  have hirrefl : Std.Irrefl fun a b : α × β => cmp a.1 b.1 = .lt :=
    ⟨fun a h => by simp [ReflCmp.compare_self] at h⟩
  have hasymm : Std.Asymm fun a b : α × β => cmp a.1 b.1 = .lt :=
    ⟨fun a b h h' => by simp [OrientedCmp.gt_of_lt h] at h'⟩
  refine ExtTreeMap.ordered_keys_toList.eq_of_mem_iff hs fun p => ?_
  rw [ExtTreeMap.mem_toList_iff_getElem?_eq_some]
  exact hm p.1 p.2

/-- A map all of whose keys are in a list as short as it is holds every key of the list. -/
theorem mem_of_length_le {m : ExtTreeMap α β cmp} {l : List α} (h : ∀ k, k ∈ m → k ∈ l)
    (hl : l.length ≤ m.size) {k : α} (hk : k ∈ l) : k ∈ m := by
  have hsub : m.keys.Subperm l := by
    refine List.subperm_of_subset ExtTreeMap.nodup_keys fun a ha => ?_
    exact h a (ExtTreeMap.mem_keys.mp ha)
  have hperm : m.keys.Perm l := by
    refine hsub.perm_of_length_le ?_
    rw [ExtTreeMap.length_keys]
    exact hl
  exact ExtTreeMap.mem_keys.mp (hperm.mem_iff.mpr hk)

theorem size_le_length {m : ExtTreeMap α β cmp} {l : List α} (h : ∀ k, k ∈ m → k ∈ l) :
    m.size ≤ l.length := by
  have hsub : m.keys.Subperm l := by
    refine List.subperm_of_subset ExtTreeMap.nodup_keys fun a ha => ?_
    exact h a (ExtTreeMap.mem_keys.mp ha)
  rw [← ExtTreeMap.length_keys]
  exact hsub.length_le

theorem length_le_size {m : ExtTreeMap α β cmp} {l : List α} (hl : l.Nodup) (h : ∀ k ∈ l, k ∈ m) :
    l.length ≤ m.size := by
  have hsub : l.Subperm m.keys := List.subperm_of_subset hl fun a ha => ExtTreeMap.mem_keys.mpr (h a ha)
  rw [← ExtTreeMap.length_keys]
  exact hsub.length_le

/-- A map whose keys another holds too, and as many, has the same keys. -/
theorem mem_of_size_eq {m : ExtTreeMap α β cmp} {n : ExtTreeMap α γ cmp} (hs : m.size = n.size)
    (h : ∀ k, k ∈ m → k ∈ n) {k : α} (hk : k ∈ n) : k ∈ m := by
  refine mem_of_length_le (l := n.keys) (fun a ha => ExtTreeMap.mem_keys.mpr (h a ha)) ?_
    (ExtTreeMap.mem_keys.mpr hk)
  rw [ExtTreeMap.length_keys, hs]

/-- Every value stands under its own key. -/
def Keyed (key : β → α) (m : ExtTreeMap α β cmp) : Prop := ∀ k v, m[k]? = some v → key v = k

section Keyed

variable {key : β → α} {m : ExtTreeMap α β cmp}

omit [LawfulEqCmp cmp] in
theorem Keyed.empty : Keyed key (∅ : ExtTreeMap α β cmp) := by
  intro k v h
  simp at h

theorem Keyed.insert [DecidableEq α] (h : Keyed key m) (v : β) : Keyed key (m.insert (key v) v) := by
  intro k w hw
  rw [getElem?_insert_eq] at hw
  split at hw
  next hk => cases hw; exact hk
  next => exact h k w hw

theorem Keyed.insertAll [DecidableEq α] (h : Keyed key m) (l : List β) :
    Keyed key (insertAll key m l) := by
  induction l generalizing m with
  | nil => exact h
  | cons v l ih => exact ih (h.insert v)

theorem Keyed.erase [DecidableEq α] (h : Keyed key m) (a : α) : Keyed key (m.erase a) := by
  intro k w hw
  rw [getElem?_erase_eq] at hw
  split at hw
  next => simp at hw
  next => exact h k w hw

theorem Keyed.filter (h : Keyed key m) (p : β → Bool) : Keyed key (m.filter fun _ v => p v) := by
  intro k w hw
  rw [getElem?_filter_eq, Option.filter_eq_some_iff] at hw
  exact h k w hw.1

theorem Keyed.map (h : Keyed key m) {f : β → β} (hf : ∀ v, key (f v) = key v) :
    Keyed key (m.map fun _ v => f v) := by
  intro k w hw
  rw [ExtTreeMap.getElem?_map] at hw
  obtain ⟨v, hv, rfl⟩ := Option.map_eq_some_iff.mp hw
  rw [hf]
  exact h k v hv

/-- The values of a keyed map have its keys, each once. -/
theorem Keyed.map_values (h : Keyed key m) : (values m).map key = m.keys := by
  rw [values, List.map_map, ← ExtTreeMap.map_fst_toList_eq_keys]
  refine List.map_congr_left fun p hp => ?_
  exact h p.1 p.2 (ExtTreeMap.mem_toList_iff_getElem?_eq_some.mp hp)

theorem Keyed.nodup_values (h : Keyed key m) : ((values m).map key).Nodup := by
  rw [h.map_values]
  exact ExtTreeMap.nodup_keys

theorem Keyed.mem_values (h : Keyed key m) (v : β) : v ∈ values m ↔ m[key v]? = some v := by
  rw [mem_values_iff]
  refine ⟨fun ⟨k, hk⟩ => ?_, fun hv => ⟨key v, hv⟩⟩
  rw [h k v hk]
  exact hk

theorem Keyed.mem_filter (h : Keyed key m) (p : α × β → Bool) (v : β) :
    v ∈ (m.toList.filter p).map Prod.snd ↔ m[key v]? = some v ∧ p (key v, v) = true := by
  constructor
  · intro hv
    obtain ⟨q, hq, rfl⟩ := List.mem_map.mp hv
    obtain ⟨hm, hp⟩ := List.mem_filter.mp hq
    have hget := ExtTreeMap.mem_toList_iff_getElem?_eq_some.mp hm
    have hkey : key q.2 = q.1 := h q.1 q.2 hget
    rw [hkey]
    exact ⟨hget, hp⟩
  · rintro ⟨hget, hp⟩
    have hm := ExtTreeMap.mem_toList_iff_getElem?_eq_some.mpr hget
    exact List.mem_map.mpr ⟨(key v, v), List.mem_filter.mpr ⟨hm, hp⟩, rfl⟩

/-- Some of a keyed map's values, each changed but for its key, still have distinct keys. -/
theorem Keyed.nodup_filter (h : Keyed key m) (p : α × β → Bool) {f : β → β}
    (hf : ∀ v, key (f v) = key v) :
    (((m.toList.filter p).map fun q => f q.2).map key).Nodup := by
  have hkeys : ((m.toList.filter p).map fun q => f q.2).map key = (m.toList.filter p).map Prod.fst := by
    rw [List.map_map]
    refine List.map_congr_left fun q hq => ?_
    have hm := ExtTreeMap.mem_toList_iff_getElem?_eq_some.mp (List.mem_of_mem_filter hq)
    exact (hf q.2).trans (h q.1 q.2 hm)
  rw [hkeys]
  refine List.Nodup.sublist (List.Sublist.map _ List.filter_sublist) ?_
  rw [ExtTreeMap.map_fst_toList_eq_keys]
  exact ExtTreeMap.nodup_keys

/-- Inserting a keyed map's values one after another makes the map again. -/
theorem Keyed.insertAll_values [DecidableEq α] (h : Keyed key m) :
    KeyedMaps.insertAll key (∅ : ExtTreeMap α β cmp) (values m) = m := by
  refine ExtTreeMap.ext_getElem? fun k => ?_
  cases hk : m[k]? with
  | none =>
    rw [getElem?_insertAll_of_not_mem]
    · simp
    · rw [h.map_values, ExtTreeMap.mem_keys, mem_iff_getElem?, hk]
      simp
  | some v =>
    have hv := h k v hk
    have hmem : v ∈ values m := (h.mem_values v).mpr (by rw [hv]; exact hk)
    rw [← hv]
    exact getElem?_insertAll_of_mem h.nodup_values hmem

end Keyed

section Keys

variable {α β : Type} [DecidableEq α]

/-- The entries of the keys that pass. -/
def filterKeys (p : α → Bool) (m : AList fun _ : α => β) : AList fun _ : α => β :=
  ⟨m.entries.filter fun e => p e.1, m.nodupKeys.sublist List.filter_sublist⟩

theorem lookup_filterKeys (p : α → Bool) (m : AList fun _ : α => β) (a : α) :
    (filterKeys p m).lookup a = if p a then m.lookup a else none := by
  apply Option.ext
  intro b
  rw [← Option.mem_def, AList.mem_lookup_iff]
  change _ ∈ m.entries.filter _ ↔ _
  rw [List.mem_filter, ← AList.mem_lookup_iff]
  by_cases h : p a = true
  · simp [h]
  · simp [h]

theorem lookup_insert_eq (m : AList fun _ : α => β) (k a : α) (v : β) :
    (m.insert k v).lookup a = if a = k then some v else m.lookup a := by
  by_cases h : a = k
  · rw [if_pos h, h, AList.lookup_insert]
  · rw [if_neg h, AList.lookup_insert_ne h]

theorem lookup_erase_eq (m : AList fun _ : α => β) (k a : α) :
    (m.erase k).lookup a = if a = k then none else m.lookup a := by
  by_cases h : a = k
  · rw [if_pos h, h, AList.lookup_erase]
  · rw [if_neg h, AList.lookup_erase_ne h]

theorem of_lookup_insert {m : AList fun _ : α => β} {k a : α} {v w : β} (h : (m.insert k v).lookup a = some w) :
    a = k ∧ w = v ∨ a ≠ k ∧ m.lookup a = some w := by
  rw [lookup_insert_eq] at h
  split at h
  next heq => exact .inl ⟨heq, (Option.some.inj h).symm⟩
  next hne => exact .inr ⟨hne, h⟩

theorem of_lookup_erase {m : AList fun _ : α => β} {k a : α} {w : β} (h : (m.erase k).lookup a = some w) :
    a ≠ k ∧ m.lookup a = some w := by
  rw [lookup_erase_eq] at h
  split at h
  next => cases h
  next hne => exact ⟨hne, h⟩

theorem of_lookup_filterKeys {m : AList fun _ : α => β} {p : α → Bool} {a : α} {w : β}
    (h : (filterKeys p m).lookup a = some w) : p a = true ∧ m.lookup a = some w := by
  rw [lookup_filterKeys] at h
  split at h
  next hp => exact ⟨hp, h⟩
  next => cases h

/-- The value stands under the key unless one does already. -/
def orInsert (m : AList fun _ : α => β) (k : α) (v : β) : AList fun _ : α => β :=
  match m.lookup k with
  | some _ => m
  | none => m.insert k v

theorem lookup_orInsert (m : AList fun _ : α => β) (k a : α) (v : β) :
    (orInsert m k v).lookup a = if a = k then (m.lookup k).or (some v) else m.lookup a := by
  unfold orInsert
  cases hk : m.lookup k with
  | none => simp [lookup_insert_eq]
  | some w =>
    by_cases h : a = k
    · subst h
      simp [hk]
    · simp [h]

end Keys

end KeyedMaps
