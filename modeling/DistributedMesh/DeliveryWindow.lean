import DistributedMesh.KeyedMaps

namespace DistributedMesh.NodeRpc

open Std (ExtTreeMap ExtTreeSet TransCmp LawfulEqCmp)
open KeyedMaps

section Held

variable {R : Type} {cmp : R → R → Ordering} [TransCmp cmp]

/-- `seq` is held toward `r`. -/
def Holds (m : ExtTreeMap R (ExtTreeSet Nat) cmp) (r : R) (seq : Nat) : Prop :=
  ∃ s, m[r]? = some s ∧ seq ∈ s

/-- `seq` held toward each of `receivers`. -/
def hold (seq : Nat) (m : ExtTreeMap R (ExtTreeSet Nat) cmp) (receivers : List R) :
    ExtTreeMap R (ExtTreeSet Nat) cmp :=
  receivers.foldl (fun m r => m.insert r ((m[r]?.getD ∅).insert seq)) m

/-- `seq` held toward nobody: a receiver that holds nothing more is dropped. -/
def unhold (seq : Nat) (m : ExtTreeMap R (ExtTreeSet Nat) cmp) : ExtTreeMap R (ExtTreeSet Nat) cmp :=
  (m.map fun _ s => s.erase seq).filter fun _ s => !s.isEmpty

variable [LawfulEqCmp cmp]

omit [TransCmp cmp] [LawfulEqCmp cmp] in
theorem mem_insert_iff (s : ExtTreeSet Nat) (seq k : Nat) : k ∈ s.insert seq ↔ k ∈ s ∨ k = seq := by
  rw [ExtTreeSet.mem_insert, Std.compare_eq_iff_eq, or_comm, eq_comm]

omit [TransCmp cmp] [LawfulEqCmp cmp] in
theorem mem_erase_iff (s : ExtTreeSet Nat) (seq k : Nat) : k ∈ s.erase seq ↔ k ∈ s ∧ k ≠ seq := by
  rw [ExtTreeSet.mem_erase, ne_eq, Std.compare_eq_iff_eq, and_comm, eq_comm, ne_eq]

theorem holds_hold [DecidableEq R] (seq : Nat) (receivers : List R)
    (m : ExtTreeMap R (ExtTreeSet Nat) cmp) (r : R) (k : Nat) :
    Holds (hold seq m receivers) r k ↔ Holds m r k ∨ (r ∈ receivers ∧ k = seq) := by
  induction receivers generalizing m with
  | nil => simp [hold]
  | cons x receivers ih =>
    have hfirst : Holds (m.insert x ((m[x]?.getD ∅).insert seq)) r k ↔
        Holds m r k ∨ (r = x ∧ k = seq) := by
      unfold Holds
      rw [getElem?_insert_eq]
      by_cases hx : x = r
      · subst hx
        cases hm : m[x]? with
        | none =>
          have hmem := mem_insert_iff ∅ seq k
          simpa using hmem
        | some s =>
          have hmem := mem_insert_iff s seq k
          simpa using hmem
      · simp [hx, Ne.symm hx]
    rw [hold, List.foldl_cons, ← hold, ih, hfirst, List.mem_cons]
    constructor
    · rintro ((h | ⟨rfl, h⟩) | ⟨h, hk⟩)
      · exact Or.inl h
      · exact Or.inr ⟨Or.inl rfl, h⟩
      · exact Or.inr ⟨Or.inr h, hk⟩
    · rintro (h | ⟨rfl | h, hk⟩)
      · exact Or.inl (Or.inl h)
      · exact Or.inl (Or.inr ⟨rfl, hk⟩)
      · exact Or.inr ⟨h, hk⟩

theorem holds_unhold (seq : Nat) (m : ExtTreeMap R (ExtTreeSet Nat) cmp) (r : R) (k : Nat) :
    Holds (unhold seq m) r k ↔ Holds m r k ∧ k ≠ seq := by
  have hget : (unhold seq m)[r]? = (m[r]?.map fun s => s.erase seq).filter fun s => !s.isEmpty := by
    rw [unhold, getElem?_filter_eq (m.map fun _ s => s.erase seq) (fun s => !s.isEmpty) r,
      ExtTreeMap.getElem?_map]
  rw [Holds, Holds, hget]
  cases hm : m[r]? with
  | none => simp
  | some s =>
    simp only [Option.map_some, Option.filter_some, Option.some.injEq, exists_eq_left', ← mem_erase_iff]
    constructor
    · rintro ⟨t, ht, hk⟩
      split at ht
      next => cases ht; exact hk
      next => simp at ht
    · intro hk
      refine ⟨s.erase seq, if_pos ?_, hk⟩
      rw [Bool.not_eq_true', ExtTreeSet.isEmpty_eq_false_iff]
      intro hnone
      simp [hnone] at hk

end Held

/-- The sending birth's one counter, and the frames it still holds unacked toward each receiver. -/
structure SendWindow (R : Type) (cmp : R → R → Ordering) [TransCmp cmp] where
  next : Nat
  unacked : ExtTreeMap R (ExtTreeSet Nat) cmp
  minted : ∀ r seq, Holds unacked r seq → seq < next

namespace SendWindow

variable {R : Type} {cmp : R → R → Ordering} [TransCmp cmp] [LawfulEqCmp cmp] [DecidableEq R]

def new : SendWindow R cmp where
  next := 1
  unacked := ∅
  minted := by simp [Holds]

def mint (w : SendWindow R cmp) (receivers : List R) : SendWindow R cmp × Nat :=
  ({ next := w.next + 1
     unacked := hold w.next w.unacked receivers
     minted := by
       intro r seq h
       rcases (holds_hold _ _ _ _ _).mp h with h | ⟨_, rfl⟩
       · exact Nat.lt_succ_of_lt (w.minted r seq h)
       · exact Nat.lt_succ_self _ },
    w.next)

/-- The frame `seq` is owed no longer. Answers whether any receiver still held it. -/
def settle (w : SendWindow R cmp) (seq : Nat) : SendWindow R cmp × Bool :=
  ({ next := w.next
     unacked := unhold seq w.unacked
     minted := fun r k h => w.minted r k ((holds_unhold _ _ _ _).mp h).1 },
    w.unacked.toList.any fun q => seq ∈ q.2)

/-- The `forget_below` a frame toward `receiver` carries. -/
def lowestUnacked (w : SendWindow R cmp) (receiver : R) : Nat :=
  (w.unacked[receiver]?.bind fun s => s.toList.head?).getD w.next

omit [LawfulEqCmp cmp] [DecidableEq R] in
theorem lowestUnacked_le {w : SendWindow R cmp} {r : R} {seq : Nat} (h : Holds w.unacked r seq) :
    w.lowestUnacked r ≤ seq := by
  obtain ⟨s, hs, hmem⟩ := h
  rw [lowestUnacked, hs, Option.bind_some, ← ExtTreeSet.min?_eq_head?_toList]
  cases hmin : s.min? with
  | none =>
    rw [ExtTreeSet.min?_eq_none_iff] at hmin
    simp [hmin] at hmem
  | some k =>
    have hle := ExtTreeSet.min?_le_of_mem hmem (Option.get_of_eq_some _ hmin)
    exact Std.isLE_compare.mp hle

omit [LawfulEqCmp cmp] [DecidableEq R] in
theorem lowestUnacked_le_next (w : SendWindow R cmp) (r : R) : w.lowestUnacked r ≤ w.next := by
  unfold lowestUnacked
  cases hs : w.unacked[r]? with
  | none => exact Nat.le_refl _
  | some s =>
    rw [Option.bind_some, ← ExtTreeSet.min?_eq_head?_toList]
    cases hmin : s.min? with
    | none => exact Nat.le_refl _
    | some k => exact Nat.le_of_lt (w.minted r k ⟨s, hs, ExtTreeSet.min?_mem hmin⟩)

end SendWindow

/-- What the receiver's duplicate window says about an arriving frame. -/
inductive Arrival (S : Type) where
  | new
  | held (s : S)
  | belowWatermark

/-- One sending birth's duplicate window at a receiver: forgotten only below the sender's
`forget_below`. -/
structure RecvWindow (S : Type) where
  below : Nat
  held : ExtTreeMap Nat S

namespace RecvWindow

variable {S : Type}

def new : RecvWindow S := ⟨0, ∅⟩

/-- The window once everything below the watermark is forgotten. -/
def forget (w : RecvWindow S) (forgetBelow : Nat) : RecvWindow S :=
  if forgetBelow > w.below then
    { below := forgetBelow, held := w.held.filter fun seq _ => forgetBelow ≤ seq }
  else w

def arrive (w : RecvWindow S) (seq forgetBelow : Nat) : RecvWindow S × Arrival S :=
  let w := w.forget forgetBelow
  if seq < w.below then (w, .belowWatermark)
  else match w.held[seq]? with
  | some s => (w, .held s)
  | none => (w, .new)

def insert (w : RecvWindow S) (seq : Nat) (state : S) : RecvWindow S :=
  { w with held := w.held.insert seq state }

def remove (w : RecvWindow S) (seq : Nat) : RecvWindow S := { w with held := w.held.erase seq }

theorem forget_below (w : RecvWindow S) (forgetBelow : Nat) :
    (w.forget forgetBelow).below = max w.below forgetBelow := by
  unfold forget
  split
  next h => exact (Nat.max_eq_right (Nat.le_of_lt h)).symm
  next h => exact (Nat.max_eq_left (Nat.le_of_not_lt h)).symm

/-- Forgetting adds nothing. -/
theorem forget_held {w : RecvWindow S} {forgetBelow seq : Nat} {s : S}
    (h : (w.forget forgetBelow).held[seq]? = some s) : w.held[seq]? = some s := by
  unfold forget at h
  split at h
  next =>
    simp only [ExtTreeMap.getElem?_filter', Option.filter_eq_some_iff] at h
    exact h.1
  next => exact h

end RecvWindow

end DistributedMesh.NodeRpc
