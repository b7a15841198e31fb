import DistributedMesh.ReceiveOrder
import DistributedMesh.RunSets

namespace DistributedMesh.Gossip

open Std (ExtTreeMap)
open RunSets (Ranked Apart foldl_add_spec)

namespace U64

def checkedAdd (a b : UInt64) : Option UInt64 := if a.toNat + b.toNat < UInt64.size then some (a + b) else none

/-- Exact applied counters as inclusive runs, each by its start, at the width the source holds them. -/
abbrev PublicationCounters := ExtTreeMap UInt64 UInt64

namespace PublicationCounters

def contains (runs : PublicationCounters) (counter : UInt64) : Bool :=
  (ExtTreeMap.getEntryLE? runs counter).any fun run => counter ≤ run.2

def insert (runs : PublicationCounters) (counter : UInt64) : PublicationCounters :=
  let previous := ExtTreeMap.getEntryLE? runs counter
  if previous.any fun run => counter ≤ run.2 then runs
  else
    let (runs, start) :=
      match previous.filter fun run => checkedAdd run.2 1 == some counter with
      | some run => (ExtTreeMap.erase runs run.1, run.1)
      | none => (runs, counter)
    let next := ExtTreeMap.getEntryGE? runs counter
    match next.filter fun run => checkedAdd counter 1 == some run.1 with
    | some run => ExtTreeMap.insert (ExtTreeMap.erase runs run.1) start run.2
    | none => ExtTreeMap.insert runs start counter

end PublicationCounters

/-- The last value has no next: a run that ends there is followed by none. -/
theorem checkedAdd_one_eq_iff (a b : UInt64) : checkedAdd a 1 = some b ↔ a.toNat + 1 = b.toNat := by
  have hone : (1 : UInt64).toNat = 1 := rfl
  have hbound := b.toNat_lt_size
  unfold checkedAdd
  rw [hone]
  split
  next hfits =>
    have hsum : (a + 1).toNat = a.toNat + 1 := by
      rw [UInt64.toNat_add, hone, Nat.mod_eq_of_lt hfits]
    rw [Option.some.injEq, ← UInt64.toNat_inj, hsum]
  next hover =>
    constructor
    · intro hnone
      cases hnone
    · intro hnext
      omega

theorem ranked : Ranked compare UInt64.toNat (fun a b => decide (a ≤ b)) (fun a b => checkedAdd a 1 == some b) where
  cmp_eq a b := by
    change compareOfLessAndEq a b = compareOfLessAndEq a.toNat b.toNat
    simp only [compareOfLessAndEq, UInt64.lt_iff_toNat_lt, ← UInt64.toNat_inj]
  le_iff a b := by rw [decide_eq_true_iff, UInt64.le_iff_toNat_le]
  follows_iff a b := by rw [beq_iff_eq, checkedAdd_one_eq_iff]

theorem insert_eq_add : PublicationCounters.insert =
    RunSets.add (fun a b => decide (a ≤ b)) (fun a b => checkedAdd a 1 == some b) := by
  funext runs counter
  by_cases hin : (ExtTreeMap.getEntryLE? runs counter).any (fun run => decide (counter ≤ run.2)) = true
  · exact (if_pos hin).trans (if_pos hin).symm
  · refine (if_neg hin).trans (Eq.trans ?_ (if_neg hin).symm)
    unfold RunSets.joinAfter RunSets.joinBefore
    cases (ExtTreeMap.getEntryLE? runs counter).filter fun run => checkedAdd run.2 1 == some counter with
    | none =>
      dsimp only
      cases (ExtTreeMap.getEntryGE? runs counter).filter fun next => checkedAdd counter 1 == some next.1 with
      | none => rfl
      | some next => rfl
    | some run =>
      dsimp only
      cases (ExtTreeMap.getEntryGE? (ExtTreeMap.erase runs run.1) counter).filter fun next =>
          checkedAdd counter 1 == some next.1 with
      | none => rfl
      | some next => rfl

end U64

/-- Runs of counters none of which is empty and no two of which overlap or meet. -/
structure Separate (runs : U64.PublicationCounters) : Prop where
  nonempty : ∀ start stop : UInt64, runs[start]? = some stop → start ≤ stop
  disjoint : ∀ start stop start' stop' : UInt64, runs[start]? = some stop → runs[start']? = some stop' → start < start' →
    stop < start'
  nonadjacent : ∀ start stop start' stop' : UInt64, runs[start]? = some stop → runs[start']? = some stop' →
    U64.checkedAdd stop 1 ≠ some start'

theorem publication_counters_exact (counters : List UInt64) :
    (∀ c, U64.PublicationCounters.contains (counters.foldl U64.PublicationCounters.insert ∅) c = true ↔ c ∈ counters) ∧
      Separate (counters.foldl U64.PublicationCounters.insert ∅) := by
  obtain ⟨happart, hexact⟩ := foldl_add_spec U64.ranked counters
  rw [← U64.insert_eq_add] at happart hexact
  refine ⟨hexact, ⟨?_, ?_, ?_⟩⟩
  · intro start stop hrun
    exact UInt64.le_iff_toNat_le.mpr (happart.nonempty start stop hrun)
  · intro start stop start' stop' hrun hrun' hlt
    have hgap := happart.between start stop start' stop' hrun hrun' (UInt64.lt_iff_toNat_lt.mp hlt)
    exact UInt64.lt_iff_toNat_lt.mpr (by omega)
  · intro start stop start' stop' hrun hrun' hnext
    rw [U64.checkedAdd_one_eq_iff] at hnext
    have hrange := happart.nonempty start stop hrun
    have hgap := happart.between start stop start' stop' hrun hrun' (by omega)
    omega

-- the two ends of the width: the last value starts no run beside the first
example : (([18446744073709551615, 0, 18446744073709551614] : List UInt64).foldl U64.PublicationCounters.insert ∅).toList =
    [(0, 0), (18446744073709551614, 18446744073709551615)] := by decide +kernel

theorem rankedNat : Ranked compare id (fun a b => decide (a ≤ b)) (fun a b => decide (a + 1 = b)) where
  cmp_eq _ _ := rfl
  le_iff a b := by rw [decide_eq_true_iff, id, id]
  follows_iff a b := by rw [decide_eq_true_iff, id, id]

theorem insert_eq_addNat : PublicationCounters.insert =
    RunSets.add (fun a b => decide (a ≤ b)) (fun a b => decide (a + 1 = b)) := by
  funext runs counter
  by_cases hin : (ExtTreeMap.getEntryLE? runs counter).any (fun run => decide (counter ≤ run.2)) = true
  · exact (if_pos hin).trans (if_pos hin).symm
  · refine (if_neg hin).trans (Eq.trans ?_ (if_neg hin).symm)
    unfold RunSets.joinAfter RunSets.joinBefore
    cases (ExtTreeMap.getEntryLE? runs counter).filter fun run => run.2 + 1 = counter with
    | none =>
      dsimp only
      cases (ExtTreeMap.getEntryGE? runs counter).filter fun next => counter + 1 = next.1 with
      | none => rfl
      | some next => rfl
    | some run =>
      dsimp only
      cases (ExtTreeMap.getEntryGE? (ExtTreeMap.erase runs run.1) counter).filter fun next =>
          counter + 1 = next.1 with
      | none => rfl
      | some next => rfl

/-- The receive order's own counters, kept without a width, answer as these do. -/
theorem order_counters_agree (counters : List UInt64) (c : UInt64) :
    PublicationCounters.contains ((counters.map UInt64.toNat).foldl PublicationCounters.insert ∅) c.toNat =
      U64.PublicationCounters.contains (counters.foldl U64.PublicationCounters.insert ∅) c := by
  have hwide := (foldl_add_spec U64.ranked counters).2 c
  have hnat := (foldl_add_spec rankedNat (counters.map UInt64.toNat)).2 c.toNat
  rw [← U64.insert_eq_add] at hwide
  rw [← insert_eq_addNat] at hnat
  have hmem : c.toNat ∈ counters.map UInt64.toNat ↔ c ∈ counters := by
    rw [List.mem_map]
    constructor
    · rintro ⟨d, hd, heq⟩
      rw [← UInt64.toNat_inj.mp heq]
      exact hd
    · intro hc
      exact ⟨c, hc, rfl⟩
  apply Bool.eq_iff_iff.mpr
  exact hnat.trans (hmem.trans hwide.symm)

end DistributedMesh.Gossip
