import DistributedMesh.KeyedMaps

namespace RunSets

open Std (ExtTreeMap TransCmp LawfulEqCmp)
open KeyedMaps

section Neighbours

variable {α β : Type} {cmp : α → α → Ordering} [TransCmp cmp]

theorem getEntryGE?_eq_find? (m : ExtTreeMap α β cmp) (k : α) :
    m.getEntryGE? k = m.toList.find? fun p => (cmp p.1 k).isGE := by
  obtain ⟨⟨m⟩⟩ := m
  induction m using Quotient.ind with
  | _ m =>
    let : Ord α := ⟨cmp⟩
    have : Std.TransOrd α := ‹TransCmp cmp›
    change Std.DTreeMap.Internal.Impl.Const.getEntryGE? k m.inner =
      (Std.DTreeMap.Internal.Impl.Const.toList m.inner).find? _
    rw [Std.DTreeMap.Internal.Impl.Const.getEntryGE?_eq_map,
      Std.DTreeMap.Internal.Impl.getEntryGE?_eq_find? m.wf.ordered,
      Std.DTreeMap.Internal.Impl.Const.toList_eq_toListModel_map, List.find?_map]
    rfl

theorem getEntryLE?_eq_find? (m : ExtTreeMap α β cmp) (k : α) :
    m.getEntryLE? k = m.toList.reverse.find? fun p => (cmp p.1 k).isLE := by
  obtain ⟨⟨m⟩⟩ := m
  induction m using Quotient.ind with
  | _ m =>
    let : Ord α := ⟨cmp⟩
    have : Std.TransOrd α := ‹TransCmp cmp›
    change Std.DTreeMap.Internal.Impl.Const.getEntryLE? k m.inner =
      (Std.DTreeMap.Internal.Impl.Const.toList m.inner).reverse.find? _
    rw [Std.DTreeMap.Internal.Impl.Const.getEntryLE?_eq_map,
      Std.DTreeMap.Internal.Impl.getEntryLE?_eq_findRev? m.wf.ordered,
      Std.DTreeMap.Internal.Impl.Const.toList_eq_toListModel_map, List.findRev?_eq_find?_reverse,
      ← List.map_reverse, List.find?_map]
    rfl

end Neighbours

section Runs

variable {α : Type} {cmp : α → α → Ordering}

/-- Numbers of any width: in the order of their values, each followed by the one a step above it, when the type has it. -/
structure Ranked (cmp : α → α → Ordering) (rank : α → Nat) (le follows : α → α → Bool) : Prop where
  cmp_eq : ∀ a b, cmp a b = compare (rank a) (rank b)
  le_iff : ∀ a b, le a b = true ↔ rank a ≤ rank b
  follows_iff : ∀ a b, follows a b = true ↔ rank a + 1 = rank b

section Order

variable {rank : α → Nat} {le follows : α → α → Bool} {a b : α}

theorem Ranked.injective [LawfulEqCmp cmp] (h : Ranked cmp rank le follows) (hab : rank a = rank b) : a = b := by
  have hcmp : cmp a b = .eq := by
    rw [h.cmp_eq, hab]
    exact Std.ReflCmp.compare_self
  exact LawfulEqCmp.eq_of_compare hcmp

theorem Ranked.isLE_iff (h : Ranked cmp rank le follows) : (cmp a b).isLE = true ↔ rank a ≤ rank b := by
  rw [h.cmp_eq]
  exact Nat.isLE_compare

theorem Ranked.isGE_iff (h : Ranked cmp rank le follows) : (cmp a b).isGE = true ↔ rank b ≤ rank a := by
  rw [h.cmp_eq]
  exact Nat.isGE_compare

theorem Ranked.lt_iff (h : Ranked cmp rank le follows) : cmp a b = .lt ↔ rank a < rank b := by
  rw [h.cmp_eq]
  exact Nat.compare_eq_lt

end Order

variable [TransCmp cmp]

/-- Some run of these, each inclusive and by its start, has `x` in it. -/
def Covers (rank : α → Nat) (runs : ExtTreeMap α α cmp) (x : Nat) : Prop :=
  ∃ a b, runs[a]? = some b ∧ rank a ≤ x ∧ x ≤ rank b

/-- Something is in each of the runs, and something is between any two. -/
structure Apart (rank : α → Nat) (runs : ExtTreeMap α α cmp) : Prop where
  nonempty : ∀ a b, runs[a]? = some b → rank a ≤ rank b
  between : ∀ a b c d, runs[a]? = some b → runs[c]? = some d → rank a < rank c → rank b + 1 < rank c

theorem apart_empty {rank : α → Nat} : Apart rank (∅ : ExtTreeMap α α cmp) := by
  constructor
  · intro a b hab
    rw [ExtTreeMap.getElem?_empty] at hab
    cases hab
  · intro a b c d hab
    rw [ExtTreeMap.getElem?_empty] at hab
    cases hab

def contains (le : α → α → Bool) (runs : ExtTreeMap α α cmp) (k : α) : Bool :=
  (runs.getEntryLE? k).any fun run => le k run.2

/-- The runs without the one that ends right before `k`, and where `k`'s own then starts. -/
def joinBefore (follows : α → α → Bool) (runs : ExtTreeMap α α cmp) (k : α) : ExtTreeMap α α cmp × α :=
  match (runs.getEntryLE? k).filter fun run => follows run.2 k with
  | some run => (runs.erase run.1, run.1)
  | none => (runs, k)

/-- The runs with `k`'s own, which takes in the one that starts right after. -/
def joinAfter (follows : α → α → Bool) (runs : ExtTreeMap α α cmp) (start k : α) : ExtTreeMap α α cmp :=
  match (runs.getEntryGE? k).filter fun run => follows k run.1 with
  | some run => (runs.erase run.1).insert start run.2
  | none => runs.insert start k

def add (le follows : α → α → Bool) (runs : ExtTreeMap α α cmp) (k : α) : ExtTreeMap α α cmp :=
  if contains le runs k then runs
  else joinAfter follows (joinBefore follows runs k).1 (joinBefore follows runs k).2 k

variable [LawfulEqCmp cmp] {rank : α → Nat} {le follows : α → α → Bool} {runs : ExtTreeMap α α cmp} {a b k : α}

/-- What is found first in a sorted list comes before all else that could have been. -/
theorem of_find?_sorted {γ : Type} {r : γ → γ → Prop} {p : γ → Bool} {l : List γ} {e : γ} (hsorted : l.Pairwise r)
    (hfind : l.find? p = some e) : e ∈ l ∧ p e = true ∧ ∀ x ∈ l, p x = true → x = e ∨ r e x := by
  obtain ⟨hp, before, after, rfl, hbefore⟩ := List.find?_eq_some_iff_append.mp hfind
  refine ⟨by simp, hp, fun x hx hpx => ?_⟩
  rcases List.mem_append.mp hx with hx | hx
  · have hnot := hbefore x hx
    rw [hpx] at hnot
    cases hnot
  · rcases List.mem_cons.mp hx with rfl | hx
    · exact .inl rfl
    · exact .inr ((List.pairwise_cons.mp (List.pairwise_append.mp hsorted).2.1).1 x hx)

theorem Ranked.of_getEntryLE? (h : Ranked cmp rank le follows) (hentry : runs.getEntryLE? k = some (a, b)) :
    runs[a]? = some b ∧ rank a ≤ rank k ∧ ∀ c d, runs[c]? = some d → rank c ≤ rank k → rank c ≤ rank a := by
  have hsorted : runs.toList.reverse.Pairwise fun p q => cmp q.1 p.1 = .lt :=
    List.pairwise_reverse.mpr ExtTreeMap.ordered_keys_toList
  have hmem : ∀ c d, runs[c]? = some d ↔ (c, d) ∈ runs.toList.reverse := by
    intro c d
    rw [List.mem_reverse]
    exact ExtTreeMap.mem_toList_iff_getElem?_eq_some.symm
  rw [getEntryLE?_eq_find?] at hentry
  obtain ⟨hhere, hle, hlast⟩ := of_find?_sorted hsorted hentry
  refine ⟨(hmem a b).mpr hhere, h.isLE_iff.mp hle, fun c d hc hck => ?_⟩
  rcases hlast (c, d) ((hmem c d).mp hc) (h.isLE_iff.mpr hck) with heq | hlt
  · rw [(Prod.mk.inj heq).1]
  · exact (h.lt_iff.mp hlt).le

theorem Ranked.of_getEntryLE?_none (h : Ranked cmp rank le follows) (hentry : runs.getEntryLE? k = none) :
    ∀ c d, runs[c]? = some d → rank k < rank c := by
  intro c d hc
  rw [getEntryLE?_eq_find?, List.find?_eq_none] at hentry
  have hnot := hentry (c, d) (List.mem_reverse.mpr (ExtTreeMap.mem_toList_iff_getElem?_eq_some.mpr hc))
  rw [h.isLE_iff] at hnot
  exact Nat.lt_of_not_le hnot

theorem Ranked.of_getEntryGE? (h : Ranked cmp rank le follows) (hentry : runs.getEntryGE? k = some (a, b)) :
    runs[a]? = some b ∧ rank k ≤ rank a ∧ ∀ c d, runs[c]? = some d → rank k ≤ rank c → rank a ≤ rank c := by
  have hmem : ∀ c d, runs[c]? = some d ↔ (c, d) ∈ runs.toList :=
    fun c d => ExtTreeMap.mem_toList_iff_getElem?_eq_some.symm
  rw [getEntryGE?_eq_find?] at hentry
  obtain ⟨hhere, hge, hfirst⟩ := of_find?_sorted ExtTreeMap.ordered_keys_toList hentry
  refine ⟨(hmem a b).mpr hhere, h.isGE_iff.mp hge, fun c d hc hck => ?_⟩
  rcases hfirst (c, d) ((hmem c d).mp hc) (h.isGE_iff.mpr hck) with heq | hlt
  · rw [(Prod.mk.inj heq).1]
  · exact (h.lt_iff.mp hlt).le

theorem Ranked.of_getEntryGE?_none (h : Ranked cmp rank le follows) (hentry : runs.getEntryGE? k = none) :
    ∀ c d, runs[c]? = some d → rank c < rank k := by
  intro c d hc
  rw [getEntryGE?_eq_find?, List.find?_eq_none] at hentry
  have hnot := hentry (c, d) (ExtTreeMap.mem_toList_iff_getElem?_eq_some.mpr hc)
  rw [h.isGE_iff] at hnot
  exact Nat.lt_of_not_le hnot

/-- A number is in a run when it is in the last one that starts at or before it. -/
theorem contains_iff (h : Ranked cmp rank le follows) (hruns : Apart rank runs) :
    contains le runs k = true ↔ Covers rank runs (rank k) := by
  unfold contains
  cases hentry : runs.getEntryLE? k with
  | none =>
    constructor
    · intro hany
      cases hany
    · rintro ⟨a, b, hab, hak, -⟩
      have hafter := h.of_getEntryLE?_none hentry a b hab
      omega
  | some run =>
    obtain ⟨a, b⟩ := run
    obtain ⟨hab, hak, hlast⟩ := h.of_getEntryLE? hentry
    rw [Option.any_some, h.le_iff]
    constructor
    · intro hkb
      exact ⟨a, b, hab, hak, hkb⟩
    · rintro ⟨c, d, hcd, hck, hkd⟩
      have hca := hlast c d hcd hck
      rcases Nat.lt_or_eq_of_le hca with hlt | heq
      · have hgap := hruns.between c d a b hcd hab hlt
        omega
      · have hsame := h.injective heq
        rw [hsame, hab] at hcd
        cases hcd
        exact hkd

/-- The run that ends right before `k` is the one found there. -/
theorem Ranked.previous_of_follows (h : Ranked cmp rank le follows) (hruns : Apart rank runs) (hab : runs[a]? = some b)
    (hend : rank b + 1 = rank k) : ((runs.getEntryLE? k).filter fun run => follows run.2 k).isSome := by
  have hrange := hruns.nonempty a b hab
  cases hentry : runs.getEntryLE? k with
  | none =>
    have hafter := h.of_getEntryLE?_none hentry a b hab
    omega
  | some run =>
    obtain ⟨c, d⟩ := run
    obtain ⟨hcd, hck, hlast⟩ := h.of_getEntryLE? hentry
    have hac := hlast a b hab (by omega)
    have hsame : a = c := by
      rcases Nat.lt_or_eq_of_le hac with hlt | heq
      · have hgap := hruns.between a b c d hab hcd hlt
        omega
      · exact h.injective heq
    rw [hsame, hcd] at hab
    cases hab
    simp [(h.follows_iff b k).mpr hend]

/-- The run that starts right after `k` is the one found there. -/
theorem Ranked.next_of_follows (h : Ranked cmp rank le follows) (hfar : ∀ c d, runs[c]? = some d → rank c ≠ rank k)
    (hab : runs[a]? = some b) (hbegin : rank k + 1 = rank a) :
    ((runs.getEntryGE? k).filter fun run => follows k run.1).isSome := by
  cases hentry : runs.getEntryGE? k with
  | none =>
    have hbefore := h.of_getEntryGE?_none hentry a b hab
    omega
  | some run =>
    obtain ⟨c, d⟩ := run
    obtain ⟨hcd, hck, hfirst⟩ := h.of_getEntryGE? hentry
    have hca := hfirst a b hab (by omega)
    have hne := hfar c d hcd
    have hsame : rank k + 1 = rank c := by omega
    simp [(h.follows_iff k c).mpr hsame]

section Edits

variable [DecidableEq α] {start stop : α}

theorem Apart.erase (hruns : Apart rank runs) (a : α) : Apart rank (runs.erase a) := by
  have hkept : ∀ c d : α, (runs.erase a)[c]? = some d → runs[c]? = some d := by
    intro c d hc
    rw [getElem?_erase_eq] at hc
    split at hc
    next => cases hc
    next => exact hc
  constructor
  · intro c d hc
    exact hruns.nonempty c d (hkept c d hc)
  · intro c d e f hc he
    exact hruns.between c d e f (hkept c d hc) (hkept e f he)

theorem covers_iff_erase (hab : runs[a]? = some b) (x : Nat) :
    Covers rank runs x ↔ Covers rank (runs.erase a) x ∨ (rank a ≤ x ∧ x ≤ rank b) := by
  constructor
  · rintro ⟨c, d, hc, hcx, hxd⟩
    by_cases hca : a = c
    · rw [← hca] at hc hcx
      rw [hab] at hc
      cases hc
      exact .inr ⟨hcx, hxd⟩
    · refine .inl ⟨c, d, ?_, hcx, hxd⟩
      rw [getElem?_erase_eq, if_neg hca]
      exact hc
  · rintro (⟨c, d, hc, hcx, hxd⟩ | ⟨hax, hxb⟩)
    · rw [getElem?_erase_eq] at hc
      split at hc
      next => cases hc
      next => exact ⟨c, d, hc, hcx, hxd⟩
    · exact ⟨a, b, hab, hax, hxb⟩

/-- A run apart from all the others joins them. -/
theorem Apart.insert (hruns : Apart rank runs) (hrun : rank start ≤ rank stop)
    (hfar : ∀ a b, runs[a]? = some b → rank b + 1 < rank start ∨ rank stop + 1 < rank a) :
    Apart rank (runs.insert start stop) ∧
      ∀ x, Covers rank (runs.insert start stop) x ↔ Covers rank runs x ∨ (rank start ≤ x ∧ x ≤ rank stop) := by
  have hnew : ∀ a b, runs[a]? = some b → start ≠ a := by
    intro a b hab heq
    have hle := hruns.nonempty a b hab
    rcases hfar a b hab with hbefore | hafter
    · rw [← heq] at hle
      omega
    · rw [← heq] at hafter
      omega
  have hlook : ∀ a b, (runs.insert start stop)[a]? = some b ↔ runs[a]? = some b ∨ (start = a ∧ stop = b) := by
    intro a b
    rw [getElem?_insert_eq]
    split
    next heq =>
      constructor
      · intro hb
        exact .inr ⟨heq, Option.some.inj hb⟩
      · rintro (hab | ⟨-, rfl⟩)
        · exact absurd heq (hnew a b hab)
        · rfl
    next hne =>
      constructor
      · intro hab
        exact .inl hab
      · rintro (hab | ⟨heq, -⟩)
        · exact hab
        · exact absurd heq hne
  refine ⟨⟨?_, ?_⟩, fun x => ⟨?_, ?_⟩⟩
  · intro a b hab
    rcases (hlook a b).mp hab with hold | ⟨rfl, rfl⟩
    · exact hruns.nonempty a b hold
    · exact hrun
  · intro a b c d hab hcd hlt
    rcases (hlook a b).mp hab with hold | ⟨rfl, rfl⟩
    · have hle := hruns.nonempty a b hold
      rcases (hlook c d).mp hcd with hold' | ⟨rfl, rfl⟩
      · exact hruns.between a b c d hold hold' hlt
      · rcases hfar a b hold with hbefore | hafter
        · exact hbefore
        · omega
    · rcases (hlook c d).mp hcd with hold' | ⟨rfl, rfl⟩
      · have hle := hruns.nonempty c d hold'
        rcases hfar c d hold' with hbefore | hafter
        · omega
        · exact hafter
      · omega
  · rintro ⟨a, b, hab, hax, hxb⟩
    rcases (hlook a b).mp hab with hold | ⟨rfl, rfl⟩
    · exact .inl ⟨a, b, hold, hax, hxb⟩
    · exact .inr ⟨hax, hxb⟩
  · rintro (⟨a, b, hab, hax, hxb⟩ | ⟨hax, hxb⟩)
    · exact ⟨a, b, (hlook a b).mpr (.inl hab), hax, hxb⟩
    · exact ⟨start, stop, (hlook start stop).mpr (.inr ⟨rfl, rfl⟩), hax, hxb⟩

/-- After the run before `k` is taken out, its numbers and `k` are the only ones its own run has to cover. -/
theorem joinBefore_spec (h : Ranked cmp rank le follows) (hruns : Apart rank runs) (hnew : ¬ Covers rank runs (rank k)) :
    Apart rank (joinBefore follows runs k).1 ∧ rank (joinBefore follows runs k).2 ≤ rank k ∧
      (∀ a b, (joinBefore follows runs k).1[a]? = some b → rank b + 1 < rank (joinBefore follows runs k).2 ∨ rank k < rank a) ∧
      ∀ x, Covers rank runs x ↔
        Covers rank (joinBefore follows runs k).1 x ∨ (rank (joinBefore follows runs k).2 ≤ x ∧ x < rank k) := by
  have hside : ∀ a b, runs[a]? = some b → rank b < rank k ∨ rank k < rank a := by
    intro a b hab
    by_contra hin
    exact hnew ⟨a, b, hab, by omega, by omega⟩
  unfold joinBefore
  split
  next run hrun =>
    obtain ⟨a, b⟩ := run
    obtain ⟨hentry, hfollows⟩ := Option.filter_eq_some_iff.mp hrun
    obtain ⟨hab, hak, hlast⟩ := h.of_getEntryLE? hentry
    have hend := (h.follows_iff b k).mp hfollows
    refine ⟨hruns.erase a, hak, ?_, fun x => ?_⟩
    · intro c d hcd
      rw [getElem?_erase_eq] at hcd
      split at hcd
      next => cases hcd
      next hne =>
        rcases hside c d hcd with hbefore | hafter
        · have hca := hlast c d hcd (by have := hruns.nonempty c d hcd; omega)
          have hlt : rank c < rank a := by
            rcases Nat.lt_or_eq_of_le hca with hlt | heq
            · exact hlt
            · exact absurd (h.injective heq).symm hne
          exact .inl (hruns.between c d a b hcd hab hlt)
        · exact .inr hafter
    · rw [covers_iff_erase hab]
      have hsame : x ≤ rank b ↔ x < rank k := by omega
      rw [hsame]
  next hnone =>
    refine ⟨hruns, le_rfl, ?_, fun x => ?_⟩
    · intro c d hcd
      rcases hside c d hcd with hbefore | hafter
      · refine .inl (Nat.lt_of_le_of_ne hbefore fun hend => ?_)
        exact absurd (h.previous_of_follows hruns hcd hend) (by rw [hnone]; simp)
      · exact .inr hafter
    · constructor
      · intro hcovers
        exact .inl hcovers
      · rintro (hcovers | ⟨hge, hlt⟩)
        · exact hcovers
        · exact absurd hlt (Nat.not_lt.mpr hge)

/-- `k` as the last of its run yet, and the run after it taken in: the runs cover what they did, and `k`'s. -/
theorem joinAfter_spec (h : Ranked cmp rank le follows) (hruns : Apart rank runs) (hstart : rank start ≤ rank k)
    (hfar : ∀ a b, runs[a]? = some b → rank b + 1 < rank start ∨ rank k < rank a) :
    Apart rank (joinAfter follows runs start k) ∧
      ∀ x, Covers rank (joinAfter follows runs start k) x ↔ Covers rank runs x ∨ (rank start ≤ x ∧ x ≤ rank k) := by
  unfold joinAfter
  split
  next run hrun =>
    obtain ⟨a, b⟩ := run
    obtain ⟨hentry, hfollows⟩ := Option.filter_eq_some_iff.mp hrun
    obtain ⟨hab, -, -⟩ := h.of_getEntryGE? hentry
    have hbegin := (h.follows_iff k a).mp hfollows
    have hrange := hruns.nonempty a b hab
    have hjoined : rank start ≤ rank b := by omega
    have hfarther : ∀ c d, (runs.erase a)[c]? = some d → rank d + 1 < rank start ∨ rank b + 1 < rank c := by
      intro c d hcd
      rw [getElem?_erase_eq] at hcd
      split at hcd
      next => cases hcd
      next hne =>
        rcases hfar c d hcd with hbefore | hafter
        · exact .inl hbefore
        · have hac : rank a < rank c := by
            have hranks : rank a ≠ rank c := fun heq => hne (h.injective heq)
            omega
          exact .inr (hruns.between a b c d hab hcd hac)
    obtain ⟨happart, hcovers⟩ := (hruns.erase a).insert hjoined hfarther
    refine ⟨happart, fun x => ?_⟩
    rw [hcovers, covers_iff_erase hab, or_assoc]
    have hsame : (rank start ≤ x ∧ x ≤ rank b) ↔ (rank a ≤ x ∧ x ≤ rank b) ∨ (rank start ≤ x ∧ x ≤ rank k) := by omega
    rw [hsame]
  next hnone =>
    have hfree : ∀ c d, runs[c]? = some d → rank c ≠ rank k := by
      intro c d hcd
      have hrange := hruns.nonempty c d hcd
      rcases hfar c d hcd with hbefore | hafter
      · omega
      · omega
    refine hruns.insert hstart fun c d hcd => ?_
    rcases hfar c d hcd with hbefore | hafter
    · exact .inl hbefore
    · refine .inr (Nat.lt_of_le_of_ne hafter fun hbegin => ?_)
      exact absurd (h.next_of_follows hfree hcd hbegin) (by rw [hnone]; simp)

theorem add_spec (h : Ranked cmp rank le follows) (hruns : Apart rank runs) (k : α) :
    Apart rank (add le follows runs k) ∧ ∀ x, Covers rank (add le follows runs k) x ↔ Covers rank runs x ∨ x = rank k := by
  unfold add
  split
  next hin =>
    have hcovered := (contains_iff h hruns).mp hin
    refine ⟨hruns, fun x => ⟨.inl, ?_⟩⟩
    rintro (hcovers | rfl)
    · exact hcovers
    · exact hcovered
  next hout =>
    have hnew : ¬ Covers rank runs (rank k) := fun hcovered => hout ((contains_iff h hruns).mpr hcovered)
    obtain ⟨hbefore, hstart, hfar, hcovers⟩ := joinBefore_spec h hruns hnew
    obtain ⟨hafter, hadded⟩ := joinAfter_spec h hbefore hstart hfar
    refine ⟨hafter, fun x => ?_⟩
    rw [hadded, hcovers, or_assoc]
    have hsame : (rank (joinBefore follows runs k).2 ≤ x ∧ x ≤ rank k) ↔
        (rank (joinBefore follows runs k).2 ≤ x ∧ x < rank k) ∨ x = rank k := by omega
    rw [hsame]

/-- However numbers are added, in any order and any number of times, the runs stay apart and have exactly them. -/
theorem foldl_add_spec (h : Ranked cmp rank le follows) (ks : List α) :
    Apart rank (ks.foldl (add le follows) (∅ : ExtTreeMap α α cmp)) ∧
      ∀ k, contains le (ks.foldl (add le follows) (∅ : ExtTreeMap α α cmp)) k = true ↔ k ∈ ks := by
  have hrun : ∀ (ks : List α) (runs : ExtTreeMap α α cmp), Apart rank runs →
      Apart rank (ks.foldl (add le follows) runs) ∧
        ∀ x, Covers rank (ks.foldl (add le follows) runs) x ↔ Covers rank runs x ∨ ∃ k ∈ ks, x = rank k := by
    intro ks
    induction ks with
    | nil =>
      intro runs hruns
      exact ⟨hruns, fun x => by simp⟩
    | cons k ks ih =>
      intro runs hruns
      obtain ⟨hadded, hcovers⟩ := add_spec h hruns k
      obtain ⟨happart, hall⟩ := ih _ hadded
      refine ⟨happart, fun x => ?_⟩
      rw [List.foldl_cons, hall, hcovers, or_assoc]
      simp only [List.mem_cons, or_and_right, exists_or, exists_eq_left]
  obtain ⟨happart, hcovers⟩ := hrun ks ∅ apart_empty
  refine ⟨happart, fun k => ?_⟩
  rw [contains_iff h happart, hcovers]
  constructor
  · rintro (⟨a, b, hab, -⟩ | ⟨k', hk', heq⟩)
    · rw [ExtTreeMap.getElem?_empty] at hab
      cases hab
    · rw [h.injective heq]
      exact hk'
  · intro hk
    exact .inr ⟨k, hk, rfl⟩

end Edits

end Runs

end RunSets
