import DistributedMesh.DeliveryState
import DistributedMesh.Shards

namespace DistributedMesh.NodeRpc

open Std (ExtTreeMap)
open KeyedMaps

namespace RecvWindow

variable {S : Type} {w : RecvWindow S} {seq : Nat}

/-- `seq` is no first arrival: it is held, or below the watermark. -/
def Knows (w : RecvWindow S) (seq : Nat) : Prop := seq < w.below ∨ seq ∈ w.held

theorem Knows.forget (h : w.Knows seq) (forgetBelow : Nat) : (w.forget forgetBelow).Knows seq := by
  unfold RecvWindow.forget
  split
  next hf =>
    by_cases hlow : seq < forgetBelow
    · exact Or.inl hlow
    · refine Or.inr ?_
      rcases h with h | h
      · omega
      · obtain ⟨s, hs⟩ := (mem_iff_getElem? _ _).mp h
        have hge : forgetBelow ≤ seq := by omega
        refine mem_of_lookup (v := s) ?_
        simp only [ExtTreeMap.getElem?_filter', hs, Option.filter_some, hge, decide_true, if_true]
  next => exact h

theorem knows_insert {k : Nat} {state : S} :
    (w.insert k state).Knows seq ↔ w.Knows seq ∨ k = seq := by
  unfold Knows RecvWindow.insert
  rw [ExtTreeMap.mem_insert, Std.compare_eq_iff_eq]
  constructor
  · rintro (h | h | h)
    · exact Or.inl (Or.inl h)
    · exact Or.inr h
    · exact Or.inl (Or.inr h)
  · rintro ((h | h) | h)
    · exact Or.inl h
    · exact Or.inr (Or.inr h)
    · exact Or.inr (Or.inl h)

theorem Knows.remove (h : w.Knows seq) {k : Nat} (hk : k ≠ seq) : (w.remove k).Knows seq := by
  rcases h with h | h
  · exact Or.inl h
  · refine Or.inr ?_
    rw [RecvWindow.remove, ExtTreeMap.mem_erase, ne_eq, Std.compare_eq_iff_eq]
    exact ⟨hk, h⟩

end RecvWindow

namespace Delivery

def Knows (d : Delivery) (id : DeliveryId) : Prop := (d.windowOf id.sender).Knows id.deliverySeq

/-- The request is held at its receiver. -/
def HoldsRequest (d : Delivery) (id : DeliveryId) : Prop := id.deliverySeq ∈ (d.windowOf id.sender).held

/-- The window of a sender once a window of another or of its own was written back. -/
theorem windowOf_insert (d : Delivery) (sender b : Birth) (w : RecvWindow Seen) :
    (d.recv.insert sender w)[b]?.getD .new = if sender = b then w else d.windowOf b := by
  rw [getElem?_insert_eq]
  split
  next => rfl
  next => rfl

/-- An arrival is answered as new only when it is none the receiver knows; then, and after every
other arrival, the receiver knows it, and forgets none it knew. -/
theorem arriveRequest_knows (d : Delivery) (h : RequestHeader) :
    ((d.arriveRequest h).2 = .new → ¬ d.Knows h.deliveryId) ∧
      (d.arriveRequest h).1.Knows h.deliveryId ∧
      ∀ id, d.Knows id → (d.arriveRequest h).1.Knows id := by
  have hwindow : ∀ b, (d.arriveRequest h).1.windowOf b = if h.sender = b then
      _ else d.windowOf b := fun b => windowOf_insert d h.sender b _
  unfold Knows
  simp only [hwindow, RequestHeader.deliveryId, if_true]
  unfold arriveRequest RecvWindow.arrive
  have hforget : ∀ seq, (d.windowOf h.sender).Knows seq →
      ((d.windowOf h.sender).forget h.forgetBelow).Knows seq := fun seq hk => hk.forget h.forgetBelow
  have hother : ∀ (w : RecvWindow Seen), (∀ seq, (d.windowOf h.sender).Knows seq → w.Knows seq) →
      ∀ id : DeliveryId, (d.windowOf id.sender).Knows id.deliverySeq →
        (if h.sender = id.sender then w else d.windowOf id.sender).Knows id.deliverySeq := by
    intro w hw id hk
    split
    next he =>
      rw [← he] at hk
      exact hw _ hk
    next => exact hk
  generalize (d.windowOf h.sender).forget h.forgetBelow = w at hforget
  by_cases hlow : h.deliverySeq < w.below
  · simp only [if_pos hlow]
    exact ⟨by simp, Or.inl hlow, hother w hforget⟩
  · simp only [if_neg hlow]
    cases hs : w.held[h.deliverySeq]? with
    | none =>
      refine ⟨fun _ hk => ?_, RecvWindow.knows_insert.mpr (Or.inr rfl), hother _ fun seq hk => ?_⟩
      · rcases hforget _ hk with hk | hk
        · exact hlow hk
        · exact not_mem_of_lookup hs hk
      · exact RecvWindow.knows_insert.mpr (Or.inl (hforget seq hk))
    | some seen =>
      have hknown : w.Knows h.deliverySeq := Or.inr (mem_of_lookup hs)
      cases seen with
      | pending n =>
        refine ⟨by simp, RecvWindow.knows_insert.mpr (Or.inr rfl), hother _ fun seq hk => ?_⟩
        exact RecvWindow.knows_insert.mpr (Or.inl (hforget seq hk))
      | accepted => exact ⟨by simp, hknown, hother w hforget⟩
      | ended code => exact ⟨by simp, hknown, hother w hforget⟩

/-- Settling forgets nothing, but what it drops. -/
theorem settleRequest_knows {d : Delivery} {id x : DeliveryId} {how : Settled} (hk : d.Knows x)
    (hx : how = .dropped → id ≠ x) : (d.settleRequest id how).1.Knows x := by
  unfold settleRequest
  cases hw : d.recv[id.sender]? with
  | none => exact hk
  | some w =>
    dsimp only
    cases hs : w.held[id.deliverySeq]? with
    | none => exact hk
    | some seen =>
      dsimp only
      unfold Knows at hk ⊢
      rw [windowOf, windowOf_insert]
      split
      next he =>
        have hwindow : d.windowOf x.sender = w := by
          rw [← he, windowOf, hw]
          rfl
        rw [hwindow] at hk
        have hinsert : (w.insert id.deliverySeq how.seen).Knows x.deliverySeq :=
          RecvWindow.knows_insert.mpr (Or.inl hk)
        split
        next hdropped =>
          refine hinsert.remove fun hseq => hx hdropped ?_
          cases id
          cases x
          simp only at he hseq
          rw [he, hseq]
        next => exact hinsert
      next => exact hk

/-- A call on the receiver's duplicate window. -/
inductive WindowCall where
  | arrive (h : RequestHeader)
  | settle (id : DeliveryId) (how : Settled)
deriving DecidableEq

def windowStep (d : Delivery) : WindowCall → Delivery × Option RequestArrival
  | .arrive h => ((d.arriveRequest h).1, some (d.arriveRequest h).2)
  | .settle id how => ((d.settleRequest id how).1, none)

def windowRun (d : Delivery) (calls : List WindowCall) : Delivery := Shards.run windowStep d calls

/-- A request the receiver knows stays known, whatever arrives and is settled, until it is settled
as dropped. -/
theorem Knows.windowRun {d : Delivery} {id : DeliveryId} (hk : d.Knows id) {calls : List WindowCall}
    (hcalls : .settle id .dropped ∉ calls) : (d.windowRun calls).Knows id := by
  induction calls generalizing d with
  | nil => exact hk
  | cons call calls ih =>
    obtain ⟨hfirst, hrest⟩ := List.ne_and_not_mem_of_not_mem_cons hcalls
    refine ih ?_ hrest
    cases call with
    | arrive h => exact (d.arriveRequest_knows h).2.2 id hk
    | settle x how =>
      refine settleRequest_knows hk fun hdropped he => hfirst ?_
      rw [hdropped, he]

/-- At most one dispatch: two arrivals of a request are answered as new only with a settle of it as
dropped between them, and one settled as accepted or ended while it was held is answered as new
again only after a settle of it as dropped. -/
theorem new_again_was_dropped (d : Delivery) (before between : List WindowCall) (h : RequestHeader)
    (hnew : ((d.windowRun (before ++ between)).windowStep (.arrive h)).2 = some .new) :
    (∀ first rest, between = .arrive first :: rest → first.deliveryId = h.deliveryId →
        ((d.windowRun before).windowStep (.arrive first)).2 = some .new →
        .settle h.deliveryId .dropped ∈ rest) ∧
      ∀ how rest, between = .settle h.deliveryId how :: rest → how ≠ .dropped →
        (d.windowRun before).HoldsRequest h.deliveryId → .settle h.deliveryId .dropped ∈ rest := by
  have hrun : ∀ call rest, between = call :: rest →
      d.windowRun (before ++ between) = ((d.windowRun before).windowStep call).1.windowRun rest := by
    rintro call rest rfl
    exact Shards.run_append _ _ _ _
  have hunknown : ¬ (d.windowRun (before ++ between)).Knows h.deliveryId :=
    (arriveRequest_knows _ h).1 (Option.some.inj hnew)
  constructor
  · intro first rest he hid _
    by_contra hnot
    rw [hrun _ _ he] at hunknown
    refine hunknown (Knows.windowRun ?_ hnot)
    rw [← hid]
    exact (arriveRequest_knows _ first).2.1
  · intro how rest he hhow hheld
    by_contra hnot
    rw [hrun _ _ he] at hunknown
    exact hunknown (Knows.windowRun (settleRequest_knows (Or.inr hheld) fun hd => absurd hd hhow) hnot)

def sender : Birth := ⟨"n1", "i1"⟩

def firstRequest : RequestHeader := ⟨sender, 1, 1⟩

/-- A request whose frame never completed, dropped, is dispatched on its next arrival. -/
theorem new_again_was_dropped_resent :
    ((new ⟨"n2", "i1"⟩).windowRun
        [.arrive firstRequest, .settle firstRequest.deliveryId .dropped] |>.windowStep
          (.arrive firstRequest)).2 = some .new ∧
      WindowCall.settle firstRequest.deliveryId .dropped ∈
        [WindowCall.settle firstRequest.deliveryId .dropped] := by
  have hnew : ((new ⟨"n2", "i1"⟩).windowRun
      [.arrive firstRequest, .settle firstRequest.deliveryId .dropped] |>.windowStep
        (.arrive firstRequest)).2 = some .new := by decide +kernel
  refine ⟨hnew, ?_⟩
  exact (new_again_was_dropped (new ⟨"n2", "i1"⟩) [] _ firstRequest hnew).1 firstRequest _ rfl rfl
    (by decide +kernel)

/-- A request accepted, then settled once more as dropped, is dispatched again; one settled as
accepted before it arrived is dispatched when it does. -/
theorem accepted_answered_new :
    ((new ⟨"n2", "i1"⟩).windowRun
        [.arrive firstRequest, .settle firstRequest.deliveryId .accepted,
          .settle firstRequest.deliveryId .dropped] |>.windowStep (.arrive firstRequest)).2 = some .new ∧
      ((new ⟨"n2", "i1"⟩).windowRun [.settle firstRequest.deliveryId .accepted] |>.windowStep
        (.arrive firstRequest)).2 = some .new := by
  constructor
  · decide +kernel
  · decide +kernel

end Delivery

end DistributedMesh.NodeRpc
