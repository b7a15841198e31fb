import DistributedMesh.DeliveryResponses

namespace DistributedMesh.NodeRpc

open Std (ExtTreeMap ExtTreeSet)
open KeyedMaps GuardedRuns

namespace Delivery

/-- An ack of a request marks its slot, and no other. -/
theorem requestAcked_calls (d : Delivery) (x id : DeliveryId) :
    ∃ b : Bool, (d.requestAcked x).1.calls[id]? =
      d.calls[id]?.map fun slot => { slot with acked := slot.acked || b } := by
  have hsame : d.calls[id]? = d.calls[id]?.map fun slot => { slot with acked := slot.acked || false } := by
    simp
  unfold requestAcked
  split
  next =>
    simp only [settleOwn_calls]
    cases hx : d.calls[x]? with
    | none => exact ⟨false, hsame⟩
    | some slot =>
      simp only
      by_cases he : x = id
      · subst he
        refine ⟨true, ?_⟩
        rw [getElem?_insert_eq, if_pos rfl, hx]
        simp
      · refine ⟨false, ?_⟩
        rw [getElem?_insert_eq, if_neg he]
        exact hsame
  next => exact ⟨false, hsame⟩

/-- The calls an ack leaves: those that were open, marked or not. -/
theorem onAck_calls (d : Delivery) (id x : DeliveryId) :
    ∃ b : Bool, (d.onAck id).calls[x]? =
      d.calls[x]?.map fun slot => { slot with acked := slot.acked || b } := by
  have hsame : d.calls[x]? = d.calls[x]?.map fun slot => { slot with acked := slot.acked || false } := by
    simp
  have hacked := requestAcked_calls d id x
  unfold onAck
  split
  next acked he =>
    rw [he] at hacked
    exact hacked
  next =>
    refine ⟨false, ?_⟩
    split
    next => exact (congrArg (fun m => m[x]?) (settleOwn_calls _ _)).trans hsame
    next => exact hsame

/-- The frame stands at its position already, under its `delivery_seq`. -/
def Again (o : ResponseOrder) (f : ResponseFrame) : Prop :=
  o.delivered[f.seq]? = some f.deliverySeq ∨ ∃ b, o.held[f.seq]? = some (f.deliverySeq, b)

/-- What a response frame of an open invocation does, in five cases, and whether it is taken: `d`
holds `slot` for it. -/
inductive Responds (d : Delivery) (f : ResponseFrame) (back : AckTo) (slot : Slot) :
    Bool → Delivery × List SlotEvent × ResponseVerdict → Prop where
  | moved {held : DeliveryId × AckTo} (hagain : Again slot.order f)
    (hheld : slot.unrecovered[f.deliverySeq]? = some held) : Responds d f back slot false
      (d.putSlot f.invocation
        { slot with unrecovered := slot.unrecovered.insert f.deliverySeq (held.1, back) }, [], .held)
  | acked (hagain : Again slot.order f) (hnone : slot.unrecovered[f.deliverySeq]? = none) :
    Responds d f back slot false (d.putSlot f.invocation slot, [], .ack [f.deliveryId])
  | refused (v : OrderViolation) : Responds d f back slot false
      (d.putSlot f.invocation slot, [.violation v.text], .violation v.text)
  | ahead (hd : slot.order.delivered.length ≤ f.seq) (hh : slot.order.held[f.seq]? = none)
    (hn : f.seq ≠ slot.order.next) : Responds d f back slot true
      (d.putSlot f.invocation { slot with order := { slot.order with
        held := slot.order.held.insert f.seq (f.deliverySeq, f.body) } }, [], .held)
  | handed {out : ResponseOrder} {frames : List (Nat × Nat × Bytes)} {e : Delivery}
    (h : slot.order.InOrder f.seq f.deliverySeq f.body out frames)
    (he : e = d.putSlot f.invocation ({ slot with order := out }.record f.sender back frames) ∨
      e = (d.putSlot f.invocation ({ slot with order := out }.record f.sender back frames)).endCall
        f.invocation) :
    Responds d f back slot true
      (e, slot.events f.invocation frames, .ack (slot.acksNow f.sender frames))

theorem responds {d : Delivery} {f : ResponseFrame} {slot : Slot} (back : AckTo)
    (h : (d.requestAcked f.invocation).1.calls[f.invocation]? = some slot) :
    Responds (d.requestAcked f.invocation).1 f back slot (slot.takes f) (d.onResponse f back) := by
  have hadmits := slot.order.admits f.seq f.deliverySeq f.body
  unfold onResponse Slot.takes
  simp only [h]
  generalize (slot.order.admitFrame f.seq f.deliverySeq f.body) = admitted at hadmits
  cases hadmits with
  | again hagain =>
    dsimp only
    split
    next held hheld => exact .moved hagain hheld
    next hnone => exact .acked hagain hnone
  | refused v => exact .refused v
  | ahead hd hh hn => exact .ahead hd hh hn
  | inOrder hin =>
    dsimp only
    split
    next => exact .handed hin (Or.inr rfl)
    next => exact .handed hin (Or.inl rfl)

/-- A response frame leaves the other invocations as they are. -/
theorem onResponse_other {d : Delivery} {f : ResponseFrame} (back : AckTo) {id : DeliveryId}
    (hid : f.invocation ≠ id) : (d.onResponse f back).1.calls[id]? = d.calls[id]? := by
  have hacked : (d.requestAcked f.invocation).1.calls[id]? = d.calls[id]? := by
    unfold requestAcked
    split
    next =>
      simp only [settleOwn_calls]
      split
      next => rw [getElem?_insert_eq, if_neg hid]
      next => rfl
    next => rfl
  have hput : ∀ slot, ((d.requestAcked f.invocation).1.putSlot f.invocation slot).calls[id]? =
      d.calls[id]? := by
    intro slot
    rw [putSlot, getElem?_insert_eq, if_neg hid]
    exact hacked
  cases hslot : (d.requestAcked f.invocation).1.calls[f.invocation]? with
  | none =>
    simp only [onResponse, hslot]
    exact hacked
  | some slot =>
    have hresponds := responds back hslot
    generalize d.onResponse f back = out at hresponds
    generalize slot.takes f = took at hresponds
    cases hresponds with
    | moved => exact hput _
    | acked => exact hput _
    | refused => exact hput _
    | ahead => exact hput _
    | handed _ he =>
      rcases he with rfl | rfl
      · exact hput _
      · rw [endCall_calls, getElem?_erase_eq, if_neg hid]
        exact hput _

/-- The calls a written ack leaves: one of them may owe the ack no longer. -/
theorem ackWritten_calls (d : Delivery) {a : AckOnRecovery} {back : AckTo} {id : DeliveryId} {slot : Slot}
    (h : (d.ackWritten a back).calls[id]? = some slot) : d.calls[id]? = some slot ∨
      ∃ was, d.calls[id]? = some was ∧
        slot = { was with unrecovered := was.unrecovered.erase a.deliverySeq } := by
  unfold ackWritten at h
  cases ha : d.calls[a.invocation]? with
  | none =>
    rw [ha] at h
    exact Or.inl h
  | some was =>
    rw [ha] at h
    dsimp only at h
    have hput : (d.putSlot a.invocation
          { was with unrecovered := was.unrecovered.erase a.deliverySeq }).calls[id]? = some slot →
        d.calls[id]? = some slot ∨ ∃ was, d.calls[id]? = some was ∧
          slot = { was with unrecovered := was.unrecovered.erase a.deliverySeq } := by
      intro hnow
      rw [putSlot, getElem?_insert_eq] at hnow
      split at hnow
      next hid =>
        subst hid
        exact Or.inr ⟨was, ha, (Option.some.inj hnow).symm⟩
      next => exact Or.inl hnow
    split at h
    next =>
      split at h
      next => exact hput h
      next => exact Or.inl h
    next => exact hput h

end Delivery

namespace Slot

variable {slot : Slot} {sender : Birth} {back : AckTo} {frames : List (Nat × Nat × Bytes)}

theorem record_order : (slot.record sender back frames).order = slot.order := by
  unfold record
  split <;> rfl

theorem record_acked : (slot.record sender back frames).acked = slot.acked := by
  unfold record
  split <;> rfl

/-- What is recorded once frames were handed over: an ack under `sender` of each, and what was. -/
theorem record_unrecovered {d : Nat} {r : DeliveryId × AckTo}
    (h : (slot.record sender back frames).unrecovered[d]? = some r) :
    (∃ frame ∈ frames, frame.2.1 = d ∧ r.1 = ⟨sender, d⟩) ∨ slot.unrecovered[d]? = some r := by
  unfold record at h
  split at h
  next => exact Or.inr h
  next =>
    dsimp only at h
    generalize slot.unrecovered = m at h ⊢
    induction frames generalizing m with
    | nil => exact Or.inr h
    | cons frame frames ih =>
      rw [List.foldl_cons] at h
      rcases ih _ h with ⟨x, hx, hd⟩ | hm
      · exact Or.inl ⟨x, List.mem_cons_of_mem _ hx, hd⟩
      · rw [getElem?_insert_eq] at hm
        split at hm
        next hd =>
          cases hm
          exact Or.inl ⟨frame, List.mem_cons_self, hd, by rw [hd]⟩
        next => exact Or.inr hm

theorem mem_acksNow {a : DeliveryId} (h : a ∈ slot.acksNow sender frames) :
    ∃ frame ∈ frames, a = ⟨sender, frame.2.1⟩ := by
  unfold acksNow at h
  split at h
  next =>
    obtain ⟨frame, hframe, rfl⟩ := List.mem_map.mp h
    exact ⟨frame, hframe, rfl⟩
  next => simp at h

end Slot

namespace Invocation

theorem handed_events (i : Invocation) (slot : Slot) (id : DeliveryId)
    (frames : List (Nat × Nat × Bytes)) :
    (i.send (slot.events id frames)).handed = i.handed ++ frames.map fun f => f.2.2 := by
  have hbodies : (slot.events id frames).filterMap SlotEvent.body = frames.map fun f => f.2.2 := by
    rw [Slot.events, List.filterMap_map]
    simp [Function.comp_def, SlotEvent.body]
  rw [handed, send, List.filterMap_append, hbodies, handed]

theorem handed_violation (i : Invocation) (why : String) :
    (i.send [.violation why]).handed = i.handed := by
  rw [handed, send, List.filterMap_append, handed]
  exact List.append_nil _

@[simp] theorem send_nil (i : Invocation) : i.send [] = i := by
  rw [send, List.append_nil]

theorem handed_take (i : Invocation) (f : ResponseFrame) : (i.take f).handed = i.handed := rfl

theorem take_taken (i : Invocation) (f : ResponseFrame) (p : Nat) :
    (i.take f).taken p = if p = f.seq then some f else i.taken p := by
  simp only [take, Function.update_apply]

end Invocation

/-- What stands behind an open invocation's order: each frame in the reorder buffer or handed over
is the one taken at its position, the owner has the bytes of those handed over, and an ack is
recorded only under the identity of one of them. -/
structure InvocationOk (received : List ResponseFrame) (id : DeliveryId) (slot : Slot)
    (i : Invocation) : Prop where
  taken : ∀ p g, i.taken p = some g → g ∈ received ∧ g.invocation = id ∧ g.seq = p
  count : i.handed.length = slot.order.delivered.length
  delivered : ∀ (p d : Nat), slot.order.delivered[p]? = some d →
    ∃ g, i.taken p = some g ∧ g.deliverySeq = d ∧ i.handed[p]? = some g.body
  held : ∀ (p d : Nat) (b : Bytes), slot.order.held[p]? = some (d, b) →
    slot.order.delivered.length ≤ p ∧ ∃ g, i.taken p = some g ∧ g.deliverySeq = d ∧ g.body = b
  recorded : ∀ (d : Nat) (r : DeliveryId × AckTo), slot.unrecovered[d]? = some r →
    r.1.deliverySeq = d ∧
      ∃ p g, i.taken p = some g ∧ g.deliveryId = r.1 ∧ i.handed[p]? = some g.body

/-- A frame at `seq` hands over what is held at `p`: `seq` is the next position, and no position is
missing between. -/
def ResponseOrder.Behind (o : ResponseOrder) (seq p : Nat) : Prop :=
  o.next = seq ∧ seq < p ∧ ∀ q, seq < q → q ≤ p → q ∈ o.held

theorem ResponseOrder.InOrder.position {o out : ResponseOrder} {seq deliverySeq : Nat} {bytes : Bytes}
    {frames : List (Nat × Nat × Bytes)} (h : o.InOrder seq deliverySeq bytes out frames) :
    o.delivered.length = seq := by
  rw [o.counted, h.next.2.1, h.next.1]
  rfl

theorem ResponseOrder.InOrder.behind_held {o out : ResponseOrder} {seq deliverySeq : Nat}
    {bytes : Bytes} {frames : List (Nat × Nat × Bytes)}
    (h : o.InOrder seq deliverySeq bytes out frames) {i : Nat} {f : Nat × Nat × Bytes}
    (hf : frames[i + 1]? = some f) : o.Behind seq f.1 := by
  have hpos := (h.behind i f hf).1
  have hlen : i + 1 < frames.length := (List.getElem?_eq_some_iff.mp hf).1
  refine ⟨h.next.1.symm, by omega, fun q hlow hq => ?_⟩
  obtain ⟨j, rfl⟩ : ∃ j, q = seq + (j + 1) := ⟨q - seq - 1, by omega⟩
  obtain ⟨g, hg⟩ : ∃ g, frames[j + 1]? = some g := ⟨_, List.getElem?_eq_getElem (by omega)⟩
  obtain ⟨hgpos, hheld⟩ := h.behind j g hg
  rw [hgpos] at hheld
  exact mem_of_lookup hheld

namespace InvocationOk

variable {received : List ResponseFrame} {id : DeliveryId} {slot : Slot} {i : Invocation}

theorem receive (h : InvocationOk received id slot i) (f : ResponseFrame) :
    InvocationOk (received ++ [f]) id slot i :=
  ⟨fun p g hg => ⟨List.mem_append_left _ (h.taken p g hg).1, (h.taken p g hg).2⟩, h.count, h.delivered,
    h.held, h.recorded⟩

theorem acked (h : InvocationOk received id slot i) (b : Bool) :
    InvocationOk received id { slot with acked := b } i :=
  ⟨h.taken, h.count, h.delivered, h.held, h.recorded⟩

theorem sent (h : InvocationOk received id slot i) (why : String) :
    InvocationOk received id slot (i.send [.violation why]) := by
  have hhanded := i.handed_violation why
  refine ⟨h.taken, ?_, ?_, h.held, ?_⟩
  · rw [hhanded]
    exact h.count
  · rw [hhanded]
    exact h.delivered
  · rw [hhanded]
    exact h.recorded

/-- A copy moves the ack of a frame, and changes no identity. -/
theorem moved (h : InvocationOk received id slot i) {d : Nat} {held : DeliveryId × AckTo}
    (hheld : slot.unrecovered[d]? = some held) (back : AckTo) :
    InvocationOk received id
      { slot with unrecovered := slot.unrecovered.insert d (held.1, back) } i := by
  refine ⟨h.taken, h.count, h.delivered, h.held, fun k r hr => ?_⟩
  dsimp only at hr
  rw [getElem?_insert_eq] at hr
  split at hr
  next hk =>
    subst hk
    cases hr
    exact h.recorded d held hheld
  next => exact h.recorded k r hr

theorem written (h : InvocationOk received id slot i) (d : Nat) :
    InvocationOk received id { slot with unrecovered := slot.unrecovered.erase d } i := by
  refine ⟨h.taken, h.count, h.delivered, h.held, fun k r hr => ?_⟩
  dsimp only at hr
  rw [getElem?_erase_eq] at hr
  split at hr
  next => simp at hr
  next => exact h.recorded k r hr

theorem lt_of_handed (h : InvocationOk received id slot i) {p : Nat} {b : Bytes}
    (hp : i.handed[p]? = some b) : p < slot.order.delivered.length := by
  rw [← h.count]
  exact (List.getElem?_eq_some_iff.mp hp).1

/-- A frame past a missing position goes to the reorder buffer. -/
theorem ahead (h : InvocationOk received id slot i) {f : ResponseFrame} (hid : f.invocation = id)
    (hd : slot.order.delivered.length ≤ f.seq) :
    InvocationOk (received ++ [f]) id { slot with order := { slot.order with
      held := slot.order.held.insert f.seq (f.deliverySeq, f.body) } } (i.take f) := by
  have hother : ∀ p, p ≠ f.seq → (i.take f).taken p = i.taken p := by
    intro p hp
    rw [Invocation.take_taken, if_neg hp]
  refine ⟨fun p g hg => ?_, h.count, fun p d hp => ?_, fun p d b hp => ?_, fun d r hr => ?_⟩
  · rw [Invocation.take_taken] at hg
    split at hg
    next hp =>
      cases hg
      exact ⟨by simp, hid, hp.symm⟩
    next => exact (h.receive f).taken p g hg
  · have hlt : p < slot.order.delivered.length := (List.getElem?_eq_some_iff.mp hp).1
    rw [hother p (by omega)]
    exact h.delivered p d hp
  · dsimp only at hp
    rw [getElem?_insert_eq] at hp
    split at hp
    next he =>
      cases hp
      exact ⟨by rw [← he]; exact hd, f, by rw [Invocation.take_taken, if_pos he.symm], rfl, rfl⟩
    next he =>
      rw [hother p (Ne.symm he)]
      exact h.held p d b hp
  · obtain ⟨hseq, p, g, hg, hga, hp⟩ := h.recorded d r hr
    have hlt := h.lt_of_handed hp
    exact ⟨hseq, p, g, by rw [hother p (by omega)]; exact hg, hga, hp⟩

section InOrder

variable {f : ResponseFrame} {out : ResponseOrder} {frames : List (Nat × Nat × Bytes)}

/-- The frame and those held behind it: each is the one taken at its position, and the owner is sent
its bytes. -/
theorem handed_at (h : InvocationOk received id slot i)
    (hin : slot.order.InOrder f.seq f.deliverySeq f.body out frames) {k : Nat}
    {frame : Nat × Nat × Bytes} (hk : frames[k]? = some frame) :
    let j := (i.send (slot.events id frames)).take f
    frame.1 = slot.order.delivered.length + k ∧ j.handed[frame.1]? = some frame.2.2 ∧
      ∃ g, j.taken frame.1 = some g ∧ g.deliverySeq = frame.2.1 ∧ g.body = frame.2.2 ∧
        (g = f ∨ (slot.order.Behind f.seq frame.1 ∧ i.taken frame.1 = some g)) := by
  intro j
  have hlen := hin.position
  have hbytes : j.handed[slot.order.delivered.length + k]? = some frame.2.2 := by
    rw [Invocation.handed_take, Invocation.handed_events, ← h.count,
      List.getElem?_append_right (by omega), Nat.add_sub_cancel_left, List.getElem?_map, hk]
    rfl
  cases k with
  | zero =>
    have hframe : frame = (f.seq, f.deliverySeq, f.body) := Option.some.inj (hk.symm.trans hin.first)
    subst hframe
    rw [hlen] at hbytes
    refine ⟨hlen.symm, hbytes, f, ?_, rfl, rfl, Or.inl rfl⟩
    rw [Invocation.take_taken, if_pos rfl]
  | succ k =>
    obtain ⟨hpos, hheld⟩ := hin.behind k frame hk
    obtain ⟨_, g, hg, hd, hb⟩ := h.held _ _ _ hheld
    have hframe : frame.1 = slot.order.delivered.length + (k + 1) := by omega
    rw [hframe]
    refine ⟨rfl, hbytes, g, ?_, hd, hb, Or.inr ?_⟩
    · rw [Invocation.take_taken, if_neg (by omega), ← hframe]
      exact hg
    · rw [← hframe]
      exact ⟨hin.behind_held hk, hg⟩

/-- A frame at the next position, from the birth of the frames held behind it. -/
theorem handed (h : InvocationOk received id slot i) (hid : f.invocation = id)
    (hin : slot.order.InOrder f.seq f.deliverySeq f.body out frames)
    (hbehind : ∀ p g, slot.order.Behind f.seq p → i.taken p = some g → g.sender = f.sender)
    (back : AckTo) : InvocationOk (received ++ [f]) id
      ({ slot with order := out }.record f.sender back frames)
      ((i.send (slot.events id frames)).take f) := by
  have hlen := hin.position
  have hhanded := (i.send (slot.events id frames)).handed_take f
  rw [Invocation.handed_events] at hhanded
  have hother : ∀ p, p ≠ f.seq → ((i.send (slot.events id frames)).take f).taken p = i.taken p := by
    intro p hp
    rw [Invocation.take_taken, if_neg hp]
    rfl
  refine ⟨fun p g hg => ?_, ?_, fun p d hp => ?_, fun p d b hp => ?_, fun d r hr => ?_⟩
  · rw [Invocation.take_taken] at hg
    split at hg
    next hp =>
      cases hg
      exact ⟨by simp, hid, hp.symm⟩
    next => exact (h.receive f).taken p g hg
  · rw [hhanded, Slot.record_order, hin.delivered, List.length_append, List.length_append, h.count]
    simp
  · rw [Slot.record_order, hin.delivered] at hp
    by_cases hlow : p < slot.order.delivered.length
    · rw [List.getElem?_append_left hlow] at hp
      obtain ⟨g, hg, hd, hb⟩ := h.delivered p d hp
      refine ⟨g, by rw [hother p (by omega)]; exact hg, hd, ?_⟩
      rw [hhanded, List.getElem?_append_left (by rw [h.count]; exact hlow)]
      exact hb
    · rw [List.getElem?_append_right (by omega), List.getElem?_map, Option.map_eq_some_iff] at hp
      obtain ⟨frame, hk, hd⟩ := hp
      obtain ⟨hpos, hbytes, g, hg, hgd, hgb, _⟩ := h.handed_at hin hk
      have hframe : frame.1 = p := by omega
      rw [hframe] at hbytes hg
      exact ⟨g, hg, hgd.trans hd, hbytes.trans (by rw [hgb])⟩
  · rw [Slot.record_order] at hp
    obtain ⟨hwas, hpos⟩ := hin.held p (d, b) hp
    obtain ⟨hge, g, hg⟩ := h.held p d b hwas
    have hne : p ≠ f.seq := by
      rintro rfl
      rw [hin.next.2.2] at hwas
      simp at hwas
    refine ⟨?_, g, by rw [hother p hne]; exact hg⟩
    rw [Slot.record_order, hin.delivered, List.length_append, List.length_map]
    omega
  · rcases Slot.record_unrecovered hr with ⟨frame, hframe, hd, hid⟩ | hr
    · obtain ⟨k, hk⟩ := List.getElem?_of_mem hframe
      obtain ⟨_, hbytes, g, hg, hgd, hgb, hfrom⟩ := h.handed_at hin hk
      have hsender : g.sender = f.sender := by
        rcases hfrom with rfl | ⟨hpos, hwas⟩
        · rfl
        · exact hbehind _ g hpos hwas
      refine ⟨by rw [hid], frame.1, g, hg, ?_, by rw [hgb]; exact hbytes⟩
      rw [hid, ResponseFrame.deliveryId, hsender, hgd, hd]
    · obtain ⟨hseq, p, g, hg, hga, hp⟩ := h.recorded d r hr
      have hlt := h.lt_of_handed hp
      refine ⟨hseq, p, g, by rw [hother p (by omega)]; exact hg, hga, ?_⟩
      rw [hhanded, List.getElem?_append_left (by rw [h.count]; exact hlt)]
      exact hp

end InOrder

/-- A response frame of an open invocation keeps it backed. -/
theorem responds (h : InvocationOk received id slot i) {f : ResponseFrame} {back : AckTo} {took : Bool}
    {d : Delivery} {out : Delivery × List SlotEvent × ResponseVerdict} (hid : f.invocation = id)
    (hout : d.Responds f back slot took out)
    (hbehind : ∀ p g, slot.order.Behind f.seq p → i.taken p = some g → g.sender = f.sender)
    {after : Slot} (hafter : out.1.calls[id]? = some after) :
    InvocationOk (received ++ [f]) id after
      (if took then (i.send out.2.1).take f else i.send out.2.1) := by
  subst hid
  have hput : ∀ x, (d.putSlot f.invocation x).calls[f.invocation]? = some x := by
    intro x
    rw [Delivery.putSlot, getElem?_insert_eq, if_pos rfl]
  cases hout with
  | moved _ hheld =>
    cases (hput _).symm.trans hafter
    simpa using (h.receive f).moved hheld back
  | acked =>
    cases (hput _).symm.trans hafter
    simpa using h.receive f
  | refused v =>
    cases (hput _).symm.trans hafter
    exact (h.receive f).sent v.text
  | ahead hd =>
    cases (hput _).symm.trans hafter
    simpa using h.ahead rfl hd
  | handed hin he =>
    rcases he with rfl | rfl
    · cases (hput _).symm.trans hafter
      exact h.handed rfl hin hbehind back
    · rw [Delivery.endCall_calls, getElem?_erase_eq, if_pos rfl] at hafter
      simp at hafter

end InvocationOk

namespace Caller

/-- Every open invocation's order is backed by its history. -/
def Backed (c : Caller) : Prop :=
  ∀ (id : DeliveryId) (slot : Slot), c.delivery.calls[id]? = some slot →
    InvocationOk c.received id slot (c.invocations id)

/-- The frames it would release are of its own birth. -/
def ReleasesOwn (c : Caller) (f : ResponseFrame) : Prop :=
  ∀ slot, c.delivery.calls[f.invocation]? = some slot →
    ∀ p g, slot.order.Behind f.seq p → (c.invocations f.invocation).taken p = some g →
      g.sender = f.sender

theorem Backed.start (me : Birth) : Backed (start me) := by
  intro id slot h
  simp [Caller.start, Delivery.new] at h

section Backed

variable {c : Caller}

theorem update_self (c : Caller) (id : DeliveryId) (i : Invocation) : (c.update id i).invocations id = i :=
  Function.update_self ..

theorem update_of_ne {id x : DeliveryId} (h : x ≠ id) (c : Caller) (i : Invocation) :
    (c.update id i).invocations x = c.invocations x := Function.update_of_ne h ..

/-- The slots that stay, marked or not, keep what backs them. -/
theorem Backed.kept (h : Backed c) {d : Delivery} (hd : ∀ id : DeliveryId,
    ∃ b : Bool, d.calls[id]? = c.delivery.calls[id]?.map fun slot => { slot with acked := slot.acked || b }) :
    Backed { c with delivery := d } := by
  intro id slot hslot
  obtain ⟨b, hb⟩ := hd id
  obtain ⟨was, hwas, rfl⟩ := Option.map_eq_some_iff.mp (hb.symm.trans hslot)
  exact (h id was hwas).acked _

theorem Backed.onResponse (h : Backed c) (f : ResponseFrame) (back : AckTo) (hok : c.ReleasesOwn f) :
    Backed (c.step (.onResponse f back)) := by
  intro id slot hslot
  have hslot : (c.delivery.onResponse f back).1.calls[id]? = some slot := hslot
  by_cases hid : f.invocation = id
  · obtain ⟨b, hb⟩ := c.delivery.requestAcked_calls f.invocation f.invocation
    cases hopen : c.delivery.calls[f.invocation]? with
    | none =>
      rw [hopen, Option.map_none] at hb
      subst hid
      simp only [Delivery.onResponse, hb] at hslot
      simp at hslot
    | some was =>
      rw [hopen, Option.map_some] at hb
      have hwas := (h f.invocation was hopen).acked (was.acked || b)
      have htakes : c.takes f = Slot.takes { was with acked := was.acked || b } f := by
        simp only [takes, hopen]
        rfl
      subst hid
      simp only [step, update_self, htakes]
      exact hwas.responds rfl (Delivery.responds back hb) (hok was hopen) hslot
  · rw [Delivery.onResponse_other back hid] at hslot
    simp only [step]
    rw [update_of_ne (Ne.symm hid)]
    exact (h id slot hslot).receive f

/-- One act keeps every open invocation backed, when a frame it is given releases frames of its own
birth alone. -/
theorem Backed.step (h : Backed c) (act : CallerAct)
    (hok : ∀ f back, act = .onResponse f back → c.ReleasesOwn f) : Backed (c.step act) := by
  cases act with
  | openCall id maxReply unary =>
    intro x slot hslot
    have hnow : (c.delivery.openCall id maxReply unary).calls[x]? = some slot := hslot
    rw [Delivery.openCall, getElem?_insert_eq] at hnow
    split at hnow
    next hx =>
      subst hx
      rw [← Option.some.inj hnow]
      simp only [Caller.step, update_self]
      exact ⟨by simp [Invocation.opened], rfl, by simp [ResponseOrder.new], by simp [ResponseOrder.new],
        by simp⟩
    next hx =>
      simp only [Caller.step]
      rw [update_of_ne (Ne.symm hx)]
      exact h x slot hnow
  | onResponse f back => exact h.onResponse f back (hok f back rfl)
  | ackWritten a back =>
    intro x slot hslot
    rcases c.delivery.ackWritten_calls hslot with hsame | ⟨was, hwas, rfl⟩
    · exact h x slot hsame
    · exact (h x was hwas).written _
  | failCall id why =>
    intro x slot hslot
    have hslot : c.delivery.calls[x]? = some slot := hslot
    by_cases hx : x = id
    · subst hx
      simp only [Caller.step, update_self, Delivery.failCall]
      split
      next => exact (h x slot hslot).sent why
      next =>
        rw [Invocation.send_nil]
        exact h x slot hslot
    · simp only [Caller.step]
      rw [update_of_ne hx]
      exact h x slot hslot
  | onAck id => exact h.kept fun x => c.delivery.onAck_calls id x
  | completeCall id =>
    intro x slot hslot
    have hslot : (c.delivery.endCall id).calls[x]? = some slot := hslot
    rw [Delivery.endCall_calls, getElem?_erase_eq] at hslot
    split at hslot
    next => simp at hslot
    next => exact h x slot hslot

end Backed

end Caller

end DistributedMesh.NodeRpc
