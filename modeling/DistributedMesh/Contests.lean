import DistributedMesh.KeyedMaps
import Mathlib.Data.List.Induction
import Mathlib.Order.Lattice

namespace Contests

open Std (ExtTreeMap TransCmp LawfulEqCmp)
open KeyedMaps

variable {α β ρ : Type} {cmp : α → α → Ordering} [TransCmp cmp]

/-- Enter a candidate at a key, where nothing stands or where it takes the place of what does. -/
def enter (takes : β → β → Bool) (m : ExtTreeMap α β cmp) (c : α × β) : ExtTreeMap α β cmp :=
  match m[c.1]? with
  | some standing => if takes standing c.2 then m.insert c.1 c.2 else m
  | none => m.insert c.1 c.2

def enterAll (takes : β → β → Bool) (m : ExtTreeMap α β cmp) (l : List (α × β)) : ExtTreeMap α β cmp :=
  l.foldl (enter takes) m

/-- What stands after a candidate was entered. -/
def stands (takes : β → β → Bool) (standing : Option β) (c : β) : β :=
  match standing with
  | some s => if takes s c then c else s
  | none => c

theorem enterAll_concat (takes : β → β → Bool) (m : ExtTreeMap α β cmp) (l : List (α × β)) (c : α × β) :
    enterAll takes m (l ++ [c]) = enter takes (enterAll takes m l) c := by
  unfold enterAll
  rw [List.foldl_append]
  rfl

variable [LawfulEqCmp cmp] [DecidableEq α] {takes : β → β → Bool} {rank : β → ρ} {m : ExtTreeMap α β cmp}

theorem getElem?_enter (takes : β → β → Bool) (m : ExtTreeMap α β cmp) (c : α × β) (k : α) :
    (enter takes m c)[k]? = if c.1 = k then some (stands takes m[k]? c.2) else m[k]? := by
  unfold enter
  by_cases hk : c.1 = k
  · subst hk
    rw [if_pos rfl]
    cases hm : m[c.1]? with
    | none =>
      simp only [stands]
      rw [getElem?_insert_eq, if_pos rfl]
    | some standing =>
      simp only [stands]
      by_cases ht : takes standing c.2 = true
      · rw [if_pos ht, if_pos ht, getElem?_insert_eq, if_pos rfl]
      · rw [if_neg ht, if_neg ht, hm]
  · rw [if_neg hk]
    cases m[c.1]? with
    | none =>
      simp only
      rw [getElem?_insert_eq, if_neg hk]
    | some standing =>
      simp only
      by_cases ht : takes standing c.2 = true
      · rw [if_pos ht, getElem?_insert_eq, if_neg hk]
      · rw [if_neg ht]

omit [TransCmp cmp] [LawfulEqCmp cmp] [DecidableEq α] in
theorem eq_or_standing (takes : β → β → Bool) (standing : Option β) (c : β) :
    stands takes standing c = c ∨ standing = some (stands takes standing c) := by
  cases standing with
  | none => exact .inl rfl
  | some s =>
    simp only [stands]
    by_cases ht : takes s c = true
    · rw [if_pos ht]
      exact .inl rfl
    · rw [if_neg ht]
      exact .inr rfl

section Ranked

variable [LinearOrder ρ]

/-- A higher candidate always takes the place, a lower one never. -/
structure Respects (takes : β → β → Bool) (rank : β → ρ) : Prop where
  higher : ∀ standing c, rank standing < rank c → takes standing c = true
  lower : ∀ standing c, rank c < rank standing → takes standing c = false

theorem Respects.le_stands (hr : Respects takes rank) (standing : Option β) (c : β) :
    rank c ≤ rank (stands takes standing c) ∧ ∀ s, standing = some s → rank s ≤ rank (stands takes standing c) := by
  cases standing with
  | none => exact ⟨le_rfl, fun s hs => absurd hs (by simp)⟩
  | some s =>
    simp only [stands]
    by_cases ht : takes s c = true
    · rw [if_pos ht]
      refine ⟨le_rfl, fun t hs => ?_⟩
      cases hs
      refine not_lt.mp fun hlt => ?_
      rw [hr.lower s c hlt] at ht
      cases ht
    · rw [if_neg ht]
      refine ⟨not_lt.mp fun hlt => ht (hr.higher s c hlt), fun t hs => ?_⟩
      cases hs
      exact le_rfl

/-- A rule that respects a rank respects a coarser one. -/
theorem Respects.coarser {σ : Type} [LinearOrder σ] {fine : β → σ} (h : Respects takes fine)
    (hlt : ∀ a b, rank a < rank b → fine a < fine b) : Respects takes rank where
  higher standing c hc := h.higher standing c (hlt standing c hc)
  lower standing c hc := h.lower standing c (hlt c standing hc)

/-- What stands at each key is one of the candidates entered there, and none of them is higher. -/
structure Leads (rank : β → ρ) (m : ExtTreeMap α β cmp) (cs : List (α × β)) : Prop where
  entrant : ∀ k w, m[k]? = some w → (k, w) ∈ cs
  best : ∀ c ∈ cs, ∃ w, m[c.1]? = some w ∧ rank c.2 ≤ rank w

omit [LawfulEqCmp cmp] [DecidableEq α] in
theorem Leads.empty : Leads rank (∅ : ExtTreeMap α β cmp) [] := by
  refine ⟨fun k w hw => ?_, fun c hc => absurd hc List.not_mem_nil⟩
  simp at hw

theorem Leads.enter {cs : List (α × β)} (h : Leads rank m cs) (hr : Respects takes rank) (c : α × β) :
    Leads rank (enter takes m c) (cs ++ [c]) := by
  obtain ⟨hnew, hold⟩ := hr.le_stands m[c.1]? c.2
  constructor
  case entrant =>
    intro k w hw
    rw [getElem?_enter] at hw
    by_cases hk : c.1 = k
    · rw [if_pos hk, Option.some_inj] at hw
      rcases eq_or_standing takes m[k]? c.2 with htaken | hkept
      · have hc : c = (k, w) := Prod.ext hk (htaken.symm.trans hw)
        rw [hc]
        exact List.mem_append_right cs (List.mem_singleton_self _)
      · rw [hw] at hkept
        exact List.mem_append_left [c] (h.entrant k w hkept)
    · rw [if_neg hk] at hw
      exact List.mem_append_left [c] (h.entrant k w hw)
  case best =>
    intro d hd
    rw [getElem?_enter]
    by_cases hk : c.1 = d.1
    · rw [if_pos hk]
      refine ⟨_, rfl, ?_⟩
      rw [← hk]
      rcases List.mem_append.mp hd with hmem | hmem
      · obtain ⟨w, hw, hle⟩ := h.best d hmem
        rw [← hk] at hw
        exact hle.trans (hold w hw)
      · rw [List.mem_singleton.mp hmem]
        exact hnew
    · rw [if_neg hk]
      rcases List.mem_append.mp hd with hmem | hmem
      · exact h.best d hmem
      · exact absurd (congrArg Prod.fst (List.mem_singleton.mp hmem)).symm hk

theorem Leads.enterAll {cs : List (α × β)} (h : Leads rank m cs) (hr : Respects takes rank) (l : List (α × β)) :
    Leads rank (enterAll takes m l) (cs ++ l) := by
  induction l generalizing m cs with
  | nil =>
    rw [List.append_nil]
    exact h
  | cons c l ih =>
    have hstep := ih (h.enter hr c)
    rw [List.append_assoc] at hstep
    exact hstep

omit [LawfulEqCmp cmp] [DecidableEq α] in
/-- What leads at a key ranks the same whatever the order of the candidates. -/
theorem Leads.rank_eq {m' : ExtTreeMap α β cmp} {cs cs' : List (α × β)} (h : Leads rank m cs) (h' : Leads rank m' cs')
    (hsame : ∀ c, c ∈ cs ↔ c ∈ cs') {k : α} {w w' : β} (hw : m[k]? = some w) (hw' : m'[k]? = some w') :
    rank w = rank w' := by
  obtain ⟨v', hv', hle⟩ := h'.best (k, w) ((hsame _).mp (h.entrant k w hw))
  obtain ⟨v, hv, hge⟩ := h.best (k, w') ((hsame _).mpr (h'.entrant k w' hw'))
  cases hw'.symm.trans hv'
  cases hw.symm.trans hv
  exact le_antisymm hle hge

omit [LawfulEqCmp cmp] [DecidableEq α] in
theorem Leads.exists_of_mem {m' : ExtTreeMap α β cmp} {cs cs' : List (α × β)} (h : Leads rank m cs)
    (h' : Leads rank m' cs') (hsame : ∀ c ∈ cs, c ∈ cs') {k : α} {w : β} (hw : m[k]? = some w) :
    ∃ w', m'[k]? = some w' := by
  obtain ⟨w', hw', -⟩ := h'.best (k, w) (hsame _ (h.entrant k w hw))
  exact ⟨w', hw'⟩

omit [DecidableEq α] in
theorem Leads.own (rank : β → ρ) (m : ExtTreeMap α β cmp) : Leads rank m m.toList := by
  refine ⟨fun k w hw => ExtTreeMap.mem_toList_iff_getElem?_eq_some.mpr hw, fun c hc => ?_⟩
  exact ⟨c.2, ExtTreeMap.mem_toList_iff_getElem?_eq_some.mp hc, le_rfl⟩

end Ranked

/-- Two maps with the same keys, what stands at each related. -/
def Alike (R : β → β → Prop) (m m' : ExtTreeMap α β cmp) : Prop := ∀ k : α, Option.Rel R m[k]? m'[k]?

section Alike

variable [LinearOrder ρ] {m' : ExtTreeMap α β cmp} {R : β → β → Prop}

omit [LawfulEqCmp cmp] [DecidableEq α] in
theorem Alike.of_some (hfor : ∀ (k : α) w, m[k]? = some w → ∃ w', m'[k]? = some w' ∧ R w w')
    (hback : ∀ (k : α) w', m'[k]? = some w' → ∃ w, m[k]? = some w) : Alike R m m' := by
  intro k
  cases hm : m[k]? with
  | none =>
    cases hm' : m'[k]? with
    | none => exact .none
    | some w' =>
      obtain ⟨w, hw⟩ := hback k w' hm'
      cases hm.symm.trans hw
  | some w =>
    obtain ⟨w', hw', hrel⟩ := hfor k w hm
    rw [hw']
    exact .some hrel

omit [LawfulEqCmp cmp] [DecidableEq α] in
theorem Alike.right (h : Alike R m m') {k : α} {w : β} (hw : m[k]? = some w) : ∃ w', m'[k]? = some w' ∧ R w w' := by
  have hk := h k
  rw [hw] at hk
  cases hm' : m'[k]? with
  | none =>
    rw [hm'] at hk
    cases hk
  | some w' =>
    rw [hm'] at hk
    cases hk with
    | some hrel => exact ⟨w', rfl, hrel⟩

omit [LawfulEqCmp cmp] [DecidableEq α] in
theorem Alike.left (h : Alike R m m') {k : α} {w' : β} (hw' : m'[k]? = some w') : ∃ w, m[k]? = some w ∧ R w w' := by
  have hk := h k
  rw [hw'] at hk
  cases hm : m[k]? with
  | none =>
    rw [hm] at hk
    cases hk
  | some w =>
    rw [hm] at hk
    cases hk with
    | some hrel => exact ⟨w, rfl, hrel⟩

omit [LawfulEqCmp cmp] [DecidableEq α] in
theorem Leads.alike {cs cs' : List (α × β)} (h : Leads rank m cs) (h' : Leads rank m' cs')
    (hsame : ∀ c, c ∈ cs ↔ c ∈ cs') (hrel : ∀ a b, rank a = rank b → R a b) : Alike R m m' := by
  refine Alike.of_some (fun k w hw => ?_) fun k w' hw' => h'.exists_of_mem h (fun c hc => (hsame c).mpr hc) hw'
  obtain ⟨w', hw'⟩ := h.exists_of_mem h' (fun c hc => (hsame c).mp hc) hw
  exact ⟨w', hw', hrel w w' (h.rank_eq h' hsame hw hw')⟩

/-- A candidate takes the place only of what ranks below it. -/
def Strict (takes : β → β → Bool) (rank : β → ρ) : Prop := ∀ standing c, takes standing c = true ↔ rank standing < rank c

theorem Strict.respects (hs : Strict takes rank) : Respects takes rank where
  higher standing c hlt := (hs standing c).mpr hlt
  lower standing c hlt := by
    rw [← Bool.not_eq_true, hs]
    exact hlt.not_gt

/-- What stands after a strict contest stood before it, or outranks what did. -/
theorem Strict.kept_or_entered (hs : Strict takes rank) (l : List (α × β)) {k : α} {w : β}
    (hw : (enterAll takes m l)[k]? = some w) :
    m[k]? = some w ∨ (k, w) ∈ l ∧ ∀ s, m[k]? = some s → rank s < rank w := by
  induction l using List.reverseRecOn generalizing w with
  | nil => exact .inl hw
  | append_singleton l c ih =>
    rw [enterAll_concat, getElem?_enter] at hw
    have hlast : c ∈ l ++ [c] := List.mem_append_right l (List.mem_singleton_self c)
    have hcarry {s : β} (h : (enterAll takes m l)[k]? = some s) :
        m[k]? = some s ∨ (k, s) ∈ l ++ [c] ∧ ∀ t, m[k]? = some t → rank t < rank s :=
      (ih h).imp_right fun hent => ⟨List.mem_append_left [c] hent.1, hent.2⟩
    by_cases hk : c.1 = k
    · rw [if_pos hk] at hw
      subst hk
      cases hbefore : (enterAll takes m l)[c.1]? with
      | none =>
        rw [hbefore] at hw
        cases hw
        refine .inr ⟨hlast, fun s hsome => ?_⟩
        obtain ⟨t, ht, -⟩ := ((Leads.own rank m).enterAll hs.respects l).best (c.1, s)
          (List.mem_append_left l ((Leads.own rank m).entrant c.1 s hsome))
        cases hbefore.symm.trans ht
      | some s =>
        rw [hbefore] at hw
        simp only [stands] at hw
        by_cases ht : takes s c.2 = true
        · rw [if_pos ht] at hw
          cases hw
          refine .inr ⟨hlast, fun t hsome => ?_⟩
          have hlt := (hs s c.2).mp ht
          rcases ih hbefore with hkept | ⟨-, habove⟩
          · cases hkept.symm.trans hsome
            exact hlt
          · exact (habove t hsome).trans hlt
        · rw [if_neg ht] at hw
          cases hw
          exact hcarry hbefore
    · rw [if_neg hk] at hw
      exact hcarry hw

section Agreement

variable (hs : Strict takes rank) (hrank : ∀ a b, R a b → rank a = rank b)
include hs hrank

theorem Alike.enter_same (h : Alike R m m') {c : α × β} (hrefl : R c.2 c.2) :
    Alike R (enter takes m c) (enter takes m' c) := by
  intro k
  rw [getElem?_enter, getElem?_enter]
  by_cases hk : c.1 = k
  · rw [if_pos hk, if_pos hk]
    have hbefore := h k
    cases hm : m[k]? with
    | none =>
      cases hm' : m'[k]? with
      | none => exact .some hrefl
      | some w' =>
        rw [hm, hm'] at hbefore
        cases hbefore
    | some w =>
      obtain ⟨w', hw', hrel⟩ := h.right hm
      rw [hw']
      simp only [stands]
      -- Both decide by the rank alone.
      have hiff : takes w c.2 = true ↔ takes w' c.2 = true := by rw [hs, hs, hrank w w' hrel]
      by_cases ht : takes w c.2 = true
      · rw [if_pos ht, if_pos (hiff.mp ht)]
        exact .some hrefl
      · rw [if_neg ht, if_neg fun ht' => ht (hiff.mpr ht')]
        exact .some hrel
  · rw [if_neg hk, if_neg hk]
    exact h k

theorem Alike.enterAll_same {l : List (α × β)} (h : Alike R m m') (hrefl : ∀ c ∈ l, R c.2 c.2) :
    Alike R (enterAll takes m l) (enterAll takes m' l) := by
  induction l generalizing m m' with
  | nil => exact h
  | cons c l ih =>
    obtain ⟨hhead, htail⟩ := List.forall_mem_cons.mp hrefl
    exact ih (h.enter_same hs hrank hhead) htail

omit hrank in
theorem Strict.exists_above {l l' : List (α × β)}
    (hm : ∀ (k : α) s, m[k]? = some s → ∃ s', m'[k]? = some s' ∧ rank s = rank s')
    (hl : ∀ c ∈ l, c ∈ l') {k : α} {w : β} (hw : (enterAll takes m l)[k]? = some w) :
    ∃ w', (enterAll takes m' l')[k]? = some w' ∧ rank w ≤ rank w' := by
  have hleads := (Leads.own rank m').enterAll hs.respects l'
  rcases hs.kept_or_entered l hw with hkept | ⟨hmem, -⟩
  · obtain ⟨s', hs', heq⟩ := hm k w hkept
    rw [heq]
    exact hleads.best (k, s') (List.mem_append_left l' ((Leads.own rank m').entrant k s' hs'))
  · exact hleads.best (k, w) (List.mem_append_right m'.toList (hl _ hmem))

/-- The order of the candidates changes what stands only among those of one rank. -/
theorem Alike.enterAll_perm {l l' : List (α × β)} (h : Alike R m m') (hl : ∀ c, c ∈ l ↔ c ∈ l')
    (hrel : ∀ a ∈ l, ∀ b ∈ l, rank a.2 = rank b.2 → R a.2 b.2) :
    Alike R (enterAll takes m l) (enterAll takes m' l') := by
  have hright : ∀ (k : α) s, m[k]? = some s → ∃ s', m'[k]? = some s' ∧ rank s = rank s' := by
    intro k s hsome
    obtain ⟨s', hs', hr⟩ := h.right hsome
    exact ⟨s', hs', hrank s s' hr⟩
  have hleft : ∀ (k : α) s', m'[k]? = some s' → ∃ s, m[k]? = some s ∧ rank s' = rank s := by
    intro k s' hsome
    obtain ⟨s, hs, hr⟩ := h.left hsome
    exact ⟨s, hs, (hrank s s' hr).symm⟩
  refine Alike.of_some (fun k w hw => ?_) fun k w' hw' => ?_
  · obtain ⟨w', hw', hle⟩ := hs.exists_above hright (fun c hc => (hl c).mp hc) hw
    obtain ⟨v, hv, hge⟩ := hs.exists_above hleft (fun c hc => (hl c).mpr hc) hw'
    cases hw.symm.trans hv
    have heq : rank w = rank w' := le_antisymm hle hge
    refine ⟨w', hw', ?_⟩
    rcases hs.kept_or_entered l hw with hkept | ⟨hmem, habove⟩
    · rcases hs.kept_or_entered l' hw' with hkept' | ⟨-, habove'⟩
      · obtain ⟨s', hs', hr⟩ := h.right hkept
        cases hs'.symm.trans hkept'
        exact hr
      · obtain ⟨s', hs', hr⟩ := hright k w hkept
        exact absurd (habove' s' hs') (by rw [← hr, heq]; exact lt_irrefl _)
    · rcases hs.kept_or_entered l' hw' with hkept' | ⟨hmem', -⟩
      · obtain ⟨s, hs, hr⟩ := hleft k w' hkept'
        exact absurd (habove s hs) (by rw [← hr, heq]; exact lt_irrefl _)
      · exact hrel _ hmem _ ((hl _).mpr hmem') heq
  · obtain ⟨w, hw, -⟩ := hs.exists_above hleft (fun c hc => (hl c).mpr hc) hw'
    exact ⟨w, hw⟩

end Agreement

end Alike

end Contests
