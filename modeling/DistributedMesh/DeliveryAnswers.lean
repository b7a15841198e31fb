import DistributedMesh.DeliveryAcks

namespace DistributedMesh.NodeRpc

open Std (ExtTreeMap)
open KeyedMaps GuardedRuns

namespace Caller

/-- What a frame of an open invocation meets: its slot, marked or not, and one of the five cases. -/
theorem opened_responds {c : Caller} {f : ResponseFrame} {slot : Slot} (back : AckTo)
    (h : c.delivery.calls[f.invocation]? = some slot) :
    ∃ b : Bool, (c.delivery.requestAcked f.invocation).1.Responds f back
      { slot with acked := b } (c.takes f) (c.delivery.onResponse f back) := by
  obtain ⟨b, hb⟩ := c.delivery.requestAcked_calls f.invocation f.invocation
  rw [h, Option.map_some] at hb
  have htakes : c.takes f = Slot.takes { slot with acked := slot.acked || b } f := by
    simp only [takes, h]
    rfl
  rw [htakes]
  exact ⟨slot.acked || b, Delivery.responds back hb⟩

theorem Backed.handedOver {c : Caller} (h : Backed c) {id : DeliveryId} {slot : Slot}
    (hslot : c.delivery.calls[id]? = some slot) {d : Nat} {r : DeliveryId × AckTo}
    (hr : slot.unrecovered[d]? = some r) : c.HandedOver id r.1 := by
  have hok := h id slot hslot
  obtain ⟨_, p, g, hg, hga, hp⟩ := hok.recorded d r hr
  obtain ⟨hmem, hid, hseq⟩ := hok.taken p g hg
  exact ⟨g, hmem, hid, hga, by rw [hseq]; exact hp⟩

/-- A frame answered with an ack of its own, as it stands at its position already, is a copy of the
frame its owner was handed there. -/
def RepeatsHanded (c : Caller) (f : ResponseFrame) : Prop :=
  ∀ slot, c.delivery.calls[f.invocation]? = some slot → slot.unrecovered[f.deliverySeq]? = none →
    ∀ g, (c.invocations f.invocation).taken f.seq = some g → g.deliverySeq = f.deliverySeq →
      f.seq < slot.order.delivered.length ∧ g.sender = f.sender

/-- A repeat is of a frame handed over, and a released frame is of the birth that releases it. -/
def HandedOk (c : Caller) : CallerAct → Prop
  | .onResponse f _ => c.RepeatsHanded f ∧ c.ReleasesOwn f
  | _ => True

theorem Backed.step_handedOk {c : Caller} (h : Backed c) (act : CallerAct) (hok : c.HandedOk act) :
    Backed (c.step act) := by
  refine h.step act fun f back hact => ?_
  subst hact
  exact hok.2

/-- The acks answered to a frame of an open invocation are of frames its owner was handed. -/
theorem Backed.acks_handedOver {c : Caller} (h : Backed c) {f : ResponseFrame} (back : AckTo)
    {slot : Slot} (hslot : c.delivery.calls[f.invocation]? = some slot) (hrepeat : c.RepeatsHanded f)
    (hown : c.ReleasesOwn f) {a : DeliveryId} (ha : a ∈ (c.delivery.onResponse f back).2.2.acks) :
    (c.step (.onResponse f back)).HandedOver f.invocation a := by
  have hok := h f.invocation slot hslot
  obtain ⟨b, hresponds⟩ := opened_responds back hslot
  have hreceived : (c.step (.onResponse f back)).received = c.received ++ [f] := rfl
  have hinvocation : (c.step (.onResponse f back)).invocations f.invocation =
      if c.takes f then ((c.invocations f.invocation).send (c.delivery.onResponse f back).2.1).take f
      else (c.invocations f.invocation).send (c.delivery.onResponse f back).2.1 := update_self ..
  unfold HandedOver
  rw [hreceived, hinvocation]
  generalize c.delivery.onResponse f back = out at hresponds ha
  generalize c.takes f = took at hresponds
  cases hresponds with
  | moved => simp [ResponseVerdict.acks] at ha
  | refused => simp [ResponseVerdict.acks] at ha
  | ahead => simp [ResponseVerdict.acks] at ha
  | acked hagain hnone =>
    have ha : a = f.deliveryId := List.mem_singleton.mp ha
    -- The frame that stands there, delivered or held, is the one taken at that position.
    obtain ⟨g, hg, hd⟩ : ∃ g, (c.invocations f.invocation).taken f.seq = some g ∧
        g.deliverySeq = f.deliverySeq := by
      rcases hagain with hagain | ⟨body, hagain⟩
      · obtain ⟨g, hg, hd, _⟩ := hok.delivered _ _ hagain
        exact ⟨g, hg, hd⟩
      · obtain ⟨_, g, hg, hd, _⟩ := hok.held _ _ _ hagain
        exact ⟨g, hg, hd⟩
    obtain ⟨hlt, hsender⟩ := hrepeat slot hslot hnone g hg hd
    obtain ⟨g', hg', _, hbytes⟩ := hok.delivered f.seq _ (List.getElem?_eq_getElem hlt)
    obtain rfl : g = g' := Option.some.inj (hg.symm.trans hg')
    obtain ⟨hmem, hid, hseq⟩ := hok.taken f.seq g hg
    refine ⟨g, List.mem_append_left _ hmem, hid, ?_, ?_⟩
    · rw [ha, ResponseFrame.deliveryId, ResponseFrame.deliveryId, hsender, hd]
    · rw [hseq]
      simpa using hbytes
  | handed hin =>
    obtain ⟨frame, hframe, rfl⟩ := Slot.mem_acksNow ha
    obtain ⟨k, hk⟩ := List.getElem?_of_mem hframe
    obtain ⟨_, hbytes, g, hg, hd, hb, hfrom⟩ := (hok.acked b).handed_at hin hk
    have hg := ((hok.acked b).handed rfl hin (hown slot hslot) back).taken _ g hg
    have hsender : g.sender = f.sender := by
      rcases hfrom with rfl | ⟨hpos, hwas⟩
      · rfl
      · exact hown slot hslot _ g hpos hwas
    refine ⟨g, hg.1, hg.2.1, ?_, ?_⟩
    · rw [ResponseFrame.deliveryId, hsender, hd]
    · rw [hg.2.2, hb]
      exact hbytes

/-- A frame that is, or stays, in the reorder buffer is answered with no ack. -/
theorem Backed.held_not_acked {c : Caller} (h : Backed c) {f : ResponseFrame} {back : AckTo}
    {slot now : Slot} (hslot : c.delivery.calls[f.invocation]? = some slot)
    (hrepeat : c.RepeatsHanded f)
    (hnow : (c.delivery.onResponse f back).1.calls[f.invocation]? = some now)
    (hheld : f.seq ∈ now.order.held) : (c.delivery.onResponse f back).2.2.acks = [] := by
  have hok := h f.invocation slot hslot
  obtain ⟨b, hresponds⟩ := opened_responds back hslot
  generalize c.delivery.onResponse f back = out at hresponds hnow
  generalize c.takes f = took at hresponds
  cases hresponds with
  | moved => rfl
  | refused => rfl
  | ahead => rfl
  | acked hagain hnone =>
    rw [Delivery.putSlot, getElem?_insert_eq, if_pos rfl] at hnow
    cases hnow
    obtain ⟨frame, hframe⟩ := (mem_iff_getElem? _ _).mp hheld
    have hge := (hok.held f.seq frame.1 frame.2 hframe).1
    rcases hagain with hagain | ⟨body, hagain⟩
    · have hlt := (List.getElem?_eq_some_iff.mp hagain).1
      exact absurd hlt (Nat.not_lt.mpr hge)
    · obtain ⟨_, g, hg, hd, _⟩ := hok.held _ _ _ hagain
      exact absurd (hrepeat slot hslot hnone g hg hd).1 (Nat.not_lt.mpr hge)
  | handed hin he =>
    rcases he with rfl | rfl
    · rw [Delivery.putSlot, getElem?_insert_eq, if_pos rfl] at hnow
      rw [← Option.some.inj hnow, Slot.record_order] at hheld
      obtain ⟨frame, hframe⟩ := (mem_iff_getElem? _ _).mp hheld
      have hwas := (hin.held _ _ hframe).1
      rw [hin.next.2.2] at hwas
      simp at hwas
    · rw [Delivery.endCall_calls, getElem?_erase_eq, if_pos rfl] at hnow
      simp at hnow

/-- No ack is answered or recorded before the frame it names was handed to its invocation's owner,
in every run whose repeats are of frames handed over and whose frames release frames of their own
birth. -/
theorem acked_once_handed_over {me : Birth} {acts : List CallerAct}
    (hok : RunOk Caller.step Caller.HandedOk (Caller.start me) acts) :
    ∀ before f back after, acts = before ++ .onResponse f back :: after →
      let s := (Caller.start me).run before
      let t := s.step (.onResponse f back)
      let answered := (s.delivery.onResponse f back).2.2.acks
      (∀ slot, s.delivery.calls[f.invocation]? = some slot →
        (∀ a ∈ answered, t.HandedOver f.invocation a) ∧
        ∀ now, t.delivery.calls[f.invocation]? = some now → f.seq ∈ now.order.held → answered = []) ∧
      ∀ (id : DeliveryId) (slot : Slot), t.delivery.calls[id]? = some slot →
        ∀ (d : Nat) (r : DeliveryId × AckTo), slot.unrecovered[d]? = some r → t.HandedOver id r.1 := by
  rintro before f back after rfl s t answered
  obtain ⟨hs, hstep⟩ := RunOk.at (fun c act h => h.step_handedOk act) (Backed.start me) hok
  have hs : Backed s := hs
  have hstep : s.HandedOk (.onResponse f back) := hstep
  have ht : Backed t := hs.step_handedOk _ hstep
  refine ⟨fun slot hslot => ⟨fun a ha => ?_, fun now hnow hheld => ?_⟩, fun id slot hslot d r hr => ?_⟩
  · exact hs.acks_handedOver back hslot hstep.1 hstep.2 ha
  · exact hs.held_not_acked hslot hstep.1 hnow hheld
  · exact ht.handedOver hslot hr

/-- With one responding birth, every frame releases frames of its own. -/
theorem Backed.releasesOwn {c : Caller} (h : Backed c) {f : ResponseFrame}
    (hone : ∀ g ∈ c.received, g.sender = f.sender) : c.ReleasesOwn f := by
  intro slot hslot p g _ hg
  exact hone g ((h f.invocation slot hslot).taken p g hg).1

theorem repeatsHanded_of_new {c : Caller} {f : ResponseFrame}
    (h : (c.invocations f.invocation).taken f.seq = none) : c.RepeatsHanded f := by
  intro slot _ _ g hg
  rw [h] at hg
  simp at hg

def asked : DeliveryId := ⟨⟨"n1", "i1"⟩, 1⟩

def responder : Birth := ⟨"n2", "i1"⟩

def reply (deliverySeq seq : Nat) : ResponseFrame := ⟨responder, deliverySeq, asked, seq, [UInt8.ofNat seq]⟩

/-- A stream of two frames that arrive the other way round; the owner recovers the first, and its
copy arrives again. -/
def swapped : List CallerAct :=
  [.openCall asked 64 false, .onResponse (reply 6 1) (.stream 0), .onResponse (reply 5 0) (.stream 0),
    .ackWritten ⟨asked, 0, 5⟩ (.stream 0)]

theorem acked_once_handed_over_swapped :
    let s := (Caller.start asked.sender).run swapped
    let t := s.step (.onResponse (reply 5 0) (.stream 1))
    (reply 5 0).deliveryId ∈ (s.delivery.onResponse (reply 5 0) (.stream 1)).2.2.acks ∧
      t.HandedOver asked (reply 5 0).deliveryId := by
  have hok : RunOk Caller.step Caller.HandedOk (Caller.start asked.sender)
      (swapped ++ [.onResponse (reply 5 0) (.stream 1)]) := by
    have hreceived : ∀ c : Caller, ∀ f : ResponseFrame, f.sender = responder →
        (c.received.all fun g => g.sender = responder) = true → Backed c → c.ReleasesOwn f := by
      intro c f hf hall hc
      refine hc.releasesOwn fun g hg => ?_
      rw [hf]
      exact of_decide_eq_true (List.all_eq_true.mp hall g hg)
    have hopened : Backed ((Caller.start asked.sender).run (swapped.take 1)) :=
      (Backed.start asked.sender).step_handedOk (.openCall asked 64 false) trivial
    have hsecond : ((Caller.start asked.sender).run (swapped.take 1)).HandedOk
        (.onResponse (reply 6 1) (.stream 0)) :=
      ⟨repeatsHanded_of_new rfl, hreceived _ _ rfl rfl hopened⟩
    have hheld := hopened.step_handedOk _ hsecond
    have hfirst : ((Caller.start asked.sender).run (swapped.take 2)).HandedOk
        (.onResponse (reply 5 0) (.stream 0)) :=
      ⟨repeatsHanded_of_new (by decide +kernel), hreceived _ _ rfl (by decide +kernel) hheld⟩
    have hhanded := hheld.step_handedOk _ hfirst
    have hrecovered := hhanded.step_handedOk (.ackWritten ⟨asked, 0, 5⟩ (.stream 0)) trivial
    refine ⟨trivial, hsecond, hfirst, trivial, ⟨?_, hreceived _ _ rfl (by decide +kernel) hrecovered⟩, trivial⟩
    intro slot hslot _ g hg _
    have htaken : (((Caller.start asked.sender).run swapped).invocations asked).taken 0 =
        some (reply 5 0) := by decide +kernel
    have hcount : ((Caller.start asked.sender).run swapped).delivery.calls[asked]?.map
        (fun slot => slot.order.delivered.length) = some 2 := by decide +kernel
    obtain ⟨now, hnow, hlen⟩ := Option.map_eq_some_iff.mp hcount
    obtain rfl : slot = now := Option.some.inj (hslot.symm.trans hnow)
    obtain rfl : g = reply 5 0 := Option.some.inj (hg.symm.trans htaken)
    exact ⟨by rw [hlen]; decide, rfl⟩
  have hans : (reply 5 0).deliveryId ∈ (((Caller.start asked.sender).run swapped).delivery.onResponse
      (reply 5 0) (.stream 1)).2.2.acks := by decide +kernel
  obtain ⟨slot, hslot⟩ : ∃ slot, ((Caller.start asked.sender).run swapped).delivery.calls[asked]? =
      some slot := Option.isSome_iff_exists.mp (by decide +kernel)
  refine ⟨hans, ?_⟩
  exact ((acked_once_handed_over hok swapped (reply 5 0) (.stream 1) [] rfl).1 slot hslot).1 _ hans

/-- A frame waits for the one before it, its copy arrives, and is acked: its owner was sent nothing. -/
theorem held_repeat_acked :
    let s := (Caller.start asked.sender).run
      [.openCall asked 64 false, .onResponse (reply 6 1) (.stream 0)]
    let t := s.step (.onResponse (reply 6 1) (.stream 1))
    asked ∈ t.delivery.calls ∧
      (reply 6 1).deliveryId ∈ (s.delivery.onResponse (reply 6 1) (.stream 1)).2.2.acks ∧
      ¬ t.HandedOver asked (reply 6 1).deliveryId := by
  refine ⟨by decide +kernel, by decide +kernel, ?_⟩
  rintro ⟨g, _, _, _, hbytes⟩
  have hnothing : (((Caller.start asked.sender).run
      [.openCall asked 64 false, .onResponse (reply 6 1) (.stream 0),
        .onResponse (reply 6 1) (.stream 1)]).invocations asked).handed = [] := by decide +kernel
  have hbytes : (((Caller.start asked.sender).run
      [.openCall asked 64 false, .onResponse (reply 6 1) (.stream 0),
        .onResponse (reply 6 1) (.stream 1)]).invocations asked).handed[g.seq]? = some g.body := hbytes
  rw [hnothing] at hbytes
  simp at hbytes

/-- A frame that stands at its position already under its `delivery_seq` is of its birth. -/
def RepeatsOwn (c : Caller) (f : ResponseFrame) : Prop :=
  ∀ g, (c.invocations f.invocation).taken f.seq = some g → g.deliverySeq = f.deliverySeq →
    g.sender = f.sender

/-- No frame handed over and not recovered has, from another birth, the `delivery_seq` of the frame
or of one it would release. -/
def RecordedOwn (c : Caller) (f : ResponseFrame) : Prop :=
  ∀ slot, c.delivery.calls[f.invocation]? = some slot → ∀ r : DeliveryId × AckTo,
    (slot.unrecovered[f.deliverySeq]? = some r → (slot.order.next = f.seq ∨
        ∃ g, (c.invocations f.invocation).taken f.seq = some g ∧ g.deliverySeq = f.deliverySeq) →
      r.1.sender = f.sender) ∧
    ∀ p g, slot.order.Behind f.seq p → (c.invocations f.invocation).taken p = some g →
      slot.unrecovered[g.deliverySeq]? = some r → r.1.sender = f.sender

def IdentityOk (c : Caller) : CallerAct → Prop
  | .onResponse f _ => c.RepeatsOwn f ∧ c.ReleasesOwn f ∧ c.RecordedOwn f
  | _ => True

theorem Backed.step_identityOk {c : Caller} (h : Backed c) (act : CallerAct) (hok : c.IdentityOk act) :
    Backed (c.step act) := by
  refine h.step act fun f back hact => ?_
  subst hact
  exact hok.2.1

/-- The frame was received for the invocation, with the identity `a` names. -/
def Received (c : Caller) (invocation a : DeliveryId) : Prop :=
  ∃ g ∈ c.received, g.invocation = invocation ∧ g.deliveryId = a

theorem HandedOver.received {c : Caller} {id a : DeliveryId} (h : c.HandedOver id a) : c.Received id a := by
  obtain ⟨g, hg, hid, ha, _⟩ := h
  exact ⟨g, hg, hid, ha⟩

/-- The frame handed over with an ack under `f`'s sender is one received from it. -/
theorem Backed.handed_received {c : Caller} (h : Backed c) {f : ResponseFrame} {slot : Slot}
    (hslot : c.delivery.calls[f.invocation]? = some slot) (hown : c.ReleasesOwn f)
    {out : ResponseOrder} {frames : List (Nat × Nat × Bytes)}
    (hin : slot.order.InOrder f.seq f.deliverySeq f.body out frames) {frame : Nat × Nat × Bytes}
    (hframe : frame ∈ frames) : ∃ g ∈ c.received ++ [f], g.invocation = f.invocation ∧
      g.deliveryId = ⟨f.sender, frame.2.1⟩ ∧
      (g = f ∨ (slot.order.Behind f.seq frame.1 ∧
        (c.invocations f.invocation).taken frame.1 = some g)) := by
  have hok := h f.invocation slot hslot
  obtain ⟨k, hk⟩ := List.getElem?_of_mem hframe
  obtain ⟨_, _, g, _, hd, _, hfrom⟩ := hok.handed_at hin hk
  rcases hfrom with rfl | ⟨hpos, hwas⟩
  · refine ⟨g, by simp, rfl, ?_, Or.inl rfl⟩
    rw [ResponseFrame.deliveryId, hd]
  · obtain ⟨hmem, hid, _⟩ := hok.taken _ g hwas
    refine ⟨g, List.mem_append_left _ hmem, hid, ?_, Or.inr ⟨hpos, hwas⟩⟩
    rw [ResponseFrame.deliveryId, hd, hown slot hslot _ g hpos hwas]

/-- Every ack answered names a frame received for the invocation. -/
theorem Backed.acks_received {c : Caller} (h : Backed c) {f : ResponseFrame} (back : AckTo)
    (hown : c.ReleasesOwn f) {a : DeliveryId} (ha : a ∈ (c.delivery.onResponse f back).2.2.acks) :
    (c.step (.onResponse f back)).Received f.invocation a := by
  have hitself : (c.step (.onResponse f back)).Received f.invocation f.deliveryId :=
    ⟨f, List.mem_append_right _ (List.mem_singleton_self f), rfl, rfl⟩
  cases hslot : c.delivery.calls[f.invocation]? with
  | none =>
    obtain ⟨b, hb⟩ := c.delivery.requestAcked_calls f.invocation f.invocation
    rw [hslot, Option.map_none] at hb
    simp only [Delivery.onResponse, hb] at ha
    split at ha
    next => rw [List.mem_singleton.mp ha]; exact hitself
    next => simp [ResponseVerdict.acks] at ha
  | some slot =>
    obtain ⟨b, hresponds⟩ := opened_responds back hslot
    generalize hout : c.delivery.onResponse f back = out at hresponds ha
    generalize c.takes f = took at hresponds
    cases hresponds with
    | moved => simp [ResponseVerdict.acks] at ha
    | refused => simp [ResponseVerdict.acks] at ha
    | ahead => simp [ResponseVerdict.acks] at ha
    | acked => rw [List.mem_singleton.mp ha]; exact hitself
    | handed hin =>
      obtain ⟨frame, hframe, rfl⟩ := Slot.mem_acksNow ha
      obtain ⟨g, hg, hid, hga, _⟩ := h.handed_received hslot hown hin hframe
      exact ⟨g, hg, hid, hga⟩

end Caller

theorem ResponseOrder.again_of_duplicate {o : ResponseOrder} {f : ResponseFrame}
    (h : (o.admitFrame f.seq f.deliverySeq f.body).2 = .ok .duplicate) : Delivery.Again o f := by
  have hadmits := o.admits f.seq f.deliverySeq f.body
  generalize o.admitFrame f.seq f.deliverySeq f.body = admitted at hadmits h
  cases hadmits with
  | again hagain => exact hagain
  | refused => simp at h
  | ahead => simp at h
  | inOrder => simp at h

namespace Caller

/-- A frame taken for a repeat is one of a frame received before with its full identity, and the ack
it moves is its own. -/
theorem Backed.duplicate_own {c : Caller} (h : Backed c) {f : ResponseFrame} {slot : Slot}
    (hslot : c.delivery.calls[f.invocation]? = some slot) (hrepeat : c.RepeatsOwn f)
    (hrecorded : c.RecordedOwn f)
    (hdup : (slot.order.admitFrame f.seq f.deliverySeq f.body).2 = .ok .duplicate) :
    c.Received f.invocation f.deliveryId ∧
      ∀ r, slot.unrecovered[f.deliverySeq]? = some r → r.1 = f.deliveryId := by
  have hok := h f.invocation slot hslot
  obtain ⟨g, hg, hd⟩ : ∃ g, (c.invocations f.invocation).taken f.seq = some g ∧
      g.deliverySeq = f.deliverySeq := by
    rcases ResponseOrder.again_of_duplicate hdup with hagain | ⟨body, hagain⟩
    · obtain ⟨g, hg, hd, _⟩ := hok.delivered _ _ hagain
      exact ⟨g, hg, hd⟩
    · obtain ⟨_, g, hg, hd, _⟩ := hok.held _ _ _ hagain
      exact ⟨g, hg, hd⟩
  obtain ⟨hmem, hid, _⟩ := hok.taken f.seq g hg
  refine ⟨⟨g, hmem, hid, ?_⟩, fun r hr => ?_⟩
  · rw [ResponseFrame.deliveryId, ResponseFrame.deliveryId, hrepeat g hg hd, hd]
  · have hsender := (hrecorded slot hslot r).1 hr (Or.inr ⟨g, hg, hd⟩)
    have hseq := (hok.recorded _ r hr).1
    rw [ResponseFrame.deliveryId, ← hsender, ← hseq]

/-- A frame changes no recorded ack but one of its own identity or of a frame it releases. -/
theorem Backed.recorded_kept {c : Caller} (h : Backed c) {f : ResponseFrame} {back : AckTo}
    {slot now : Slot} (hslot : c.delivery.calls[f.invocation]? = some slot) (hown : c.ReleasesOwn f)
    (hrecorded : c.RecordedOwn f)
    (hnow : (c.delivery.onResponse f back).1.calls[f.invocation]? = some now) {d : Nat}
    {r r' : DeliveryId × AckTo} (hr : slot.unrecovered[d]? = some r)
    (hr' : now.unrecovered[d]? = some r') : r'.1 = r.1 := by
  have hok := h f.invocation slot hslot
  obtain ⟨b, hresponds⟩ := opened_responds back hslot
  have hput : ∀ (e : Delivery) x, (e.putSlot f.invocation x).calls[f.invocation]? = some x := by
    intro e x
    rw [Delivery.putSlot, getElem?_insert_eq, if_pos rfl]
  have hsame : slot.unrecovered[d]? = some r' → r'.1 = r.1 := by
    intro hwas
    rw [Option.some.inj (hr.symm.trans hwas)]
  generalize c.delivery.onResponse f back = out at hresponds hnow
  generalize c.takes f = took at hresponds
  cases hresponds with
  | moved _ hheld =>
    rw [← Option.some.inj ((hput _ _).symm.trans hnow), getElem?_insert_eq] at hr'
    split at hr'
    next hd =>
      subst hd
      rw [← Option.some.inj hr', ← Option.some.inj (hr.symm.trans hheld)]
    next => exact hsame hr'
  | acked =>
    rw [← Option.some.inj ((hput _ _).symm.trans hnow)] at hr'
    exact hsame hr'
  | refused =>
    rw [← Option.some.inj ((hput _ _).symm.trans hnow)] at hr'
    exact hsame hr'
  | ahead =>
    rw [← Option.some.inj ((hput _ _).symm.trans hnow)] at hr'
    exact hsame hr'
  | handed hin he =>
    rcases he with rfl | rfl
    · rw [← Option.some.inj ((hput _ _).symm.trans hnow)] at hr'
      rcases Slot.record_unrecovered hr' with ⟨frame, hframe, hd, hid⟩ | hwas
      · obtain ⟨g, _, _, hga, hfrom⟩ := h.handed_received hslot hown hin hframe
        have hgd : g.deliverySeq = d := (congrArg DeliveryId.deliverySeq hga).trans hd
        have hsender : r.1.sender = f.sender := by
          rcases hfrom with rfl | ⟨hpos, hwas⟩
          · exact (hrecorded slot hslot r).1 (by rw [hgd]; exact hr) (Or.inl hin.next.1.symm)
          · exact (hrecorded slot hslot r).2 _ g hpos hwas (by rw [hgd]; exact hr)
        rw [hid, ← hsender, ← (hok.recorded d r hr).1]
      · exact hsame hwas
    · rw [Delivery.endCall_calls, getElem?_erase_eq, if_pos rfl] at hnow
      simp at hnow

/-- Every ack answered or recorded names a frame received for its invocation, and a frame is taken
for another, or changes another's recorded ack, only with its full identity, in every run whose
frames meet no frame of another birth. -/
theorem frames_told_apart {me : Birth} {acts : List CallerAct}
    (hok : RunOk Caller.step Caller.IdentityOk (Caller.start me) acts) :
    ∀ before f back after, acts = before ++ .onResponse f back :: after →
      let s := (Caller.start me).run before
      let t := s.step (.onResponse f back)
      (∀ a ∈ (s.delivery.onResponse f back).2.2.acks, t.Received f.invocation a) ∧
      (∀ (id : DeliveryId) (slot : Slot), t.delivery.calls[id]? = some slot →
        ∀ (d : Nat) (r : DeliveryId × AckTo), slot.unrecovered[d]? = some r → t.Received id r.1) ∧
      ∀ slot, s.delivery.calls[f.invocation]? = some slot →
        ((slot.order.admitFrame f.seq f.deliverySeq f.body).2 = .ok .duplicate →
          s.Received f.invocation f.deliveryId ∧
            ∀ r, slot.unrecovered[f.deliverySeq]? = some r → r.1 = f.deliveryId) ∧
        ∀ now, t.delivery.calls[f.invocation]? = some now →
          ∀ (d : Nat) (r r' : DeliveryId × AckTo), slot.unrecovered[d]? = some r →
            now.unrecovered[d]? = some r' → r'.1 = r.1 := by
  rintro before f back after rfl s t
  obtain ⟨hs, hstep⟩ := RunOk.at (fun c act h => h.step_identityOk act) (Backed.start me) hok
  have hs : Backed s := hs
  obtain ⟨hrepeat, hown, hrecorded⟩ : s.RepeatsOwn f ∧ s.ReleasesOwn f ∧ s.RecordedOwn f := hstep
  have ht : Backed t := hs.step_identityOk _ ⟨hrepeat, hown, hrecorded⟩
  refine ⟨fun a ha => hs.acks_received back hown ha, fun id slot hslot d r hr => ?_,
    fun slot hslot => ⟨fun hdup => ?_, fun now hnow d r r' hr hr' => ?_⟩⟩
  · exact (ht.handedOver hslot hr).received
  · exact hs.duplicate_own hslot hrepeat hrecorded hdup
  · exact hs.recorded_kept hslot hown hrecorded hnow hr hr'

/-- With one responding birth, a frame meets none of another. -/
theorem Backed.identityOk {c : Caller} (h : Backed c) {f : ResponseFrame} (back : AckTo)
    (hone : ∀ g ∈ c.received, g.sender = f.sender)
    (hopen : ∃ slot, c.delivery.calls[f.invocation]? = some slot) :
    c.IdentityOk (.onResponse f back) := by
  have hrecorded : ∀ slot, c.delivery.calls[f.invocation]? = some slot →
      ∀ (d : Nat) (r : DeliveryId × AckTo), slot.unrecovered[d]? = some r → r.1.sender = f.sender := by
    intro slot hslot d r hr
    obtain ⟨g, hg, _, hga⟩ := (h.handedOver hslot hr).received
    rw [← hga]
    exact hone g hg
  refine ⟨fun g hg _ => ?_, h.releasesOwn hone, fun slot hslot r => ⟨fun hr _ => ?_, fun p g _ _ hr => ?_⟩⟩
  · obtain ⟨slot, hslot⟩ := hopen
    exact hone g ((h f.invocation slot hslot).taken _ g hg).1
  · exact hrecorded slot hslot _ r hr
  · exact hrecorded slot hslot _ r hr

/-- A unary answer behind a frame of the same birth that came early: both acks name what arrived. -/
theorem frames_told_apart_early :
    let s := (Caller.start asked.sender).run
      [.openCall asked 64 true, .onResponse (reply 6 1) (.stream 0)]
    let t := s.step (.onResponse (reply 5 0) (.stream 0))
    (reply 6 1).deliveryId ∈ (s.delivery.onResponse (reply 5 0) (.stream 0)).2.2.acks ∧
      t.Received asked (reply 6 1).deliveryId := by
  have hopened : Backed ((Caller.start asked.sender).run [.openCall asked 64 true]) :=
    (Backed.start asked.sender).step_identityOk (.openCall asked 64 true) trivial
  have hearly : ((Caller.start asked.sender).run [.openCall asked 64 true]).IdentityOk
      (.onResponse (reply 6 1) (.stream 0)) := by
    refine hopened.identityOk (.stream 0) (fun g hg => ?_) (Option.isSome_iff_exists.mp (by decide +kernel))
    simp [Caller.run, Caller.step, Caller.start, Caller.update] at hg
  have hfirst : ((Caller.start asked.sender).run
      [.openCall asked 64 true, .onResponse (reply 6 1) (.stream 0)]).IdentityOk
        (.onResponse (reply 5 0) (.stream 0)) := by
    refine (hopened.step_identityOk _ hearly).identityOk (.stream 0) (fun g hg => ?_)
      (Option.isSome_iff_exists.mp (by decide +kernel))
    have hg : g ∈ [reply 6 1] := hg
    rw [List.mem_singleton.mp hg]
    rfl
  have hok : RunOk Caller.step Caller.IdentityOk (Caller.start asked.sender)
      [.openCall asked 64 true, .onResponse (reply 6 1) (.stream 0), .onResponse (reply 5 0) (.stream 0)] :=
    ⟨trivial, hearly, hfirst, trivial⟩
  have hans : (reply 6 1).deliveryId ∈ (((Caller.start asked.sender).run
      [.openCall asked 64 true, .onResponse (reply 6 1) (.stream 0)]).delivery.onResponse
        (reply 5 0) (.stream 0)).2.2.acks := by decide +kernel
  refine ⟨hans, ?_⟩
  exact (frames_told_apart hok [.openCall asked 64 true, .onResponse (reply 6 1) (.stream 0)] (reply 5 0)
    (.stream 0) [] rfl).1 _ hans

/-- The frame of a role's next birth. -/
def nextReply (deliverySeq seq : Nat) : ResponseFrame := { reply deliverySeq seq with sender := ⟨"n3", "i1"⟩ }

/-- A frame of the next birth releases one of the first birth's: its ack names a frame nobody sent.
And a frame of the next birth is taken for the first birth's frame at its position. -/
theorem births_confused :
    (let s := (Caller.start asked.sender).run
        [.openCall asked 64 true, .onResponse (reply 6 1) (.stream 0)]
      let t := s.step (.onResponse (nextReply 5 0) (.stream 1))
      (nextReply 6 1).deliveryId ∈ (s.delivery.onResponse (nextReply 5 0) (.stream 1)).2.2.acks ∧
        ¬ t.Received asked (nextReply 6 1).deliveryId) ∧
      let s := (Caller.start asked.sender).run
        [.openCall asked 64 false, .onResponse (reply 5 0) (.stream 0)]
      s.delivery.calls[asked]?.map (fun slot => (slot.order.admitFrame 0 5 (nextReply 5 0).body).2) =
          some (.ok .duplicate) ∧
        ¬ s.Received asked (nextReply 5 0).deliveryId := by
  refine ⟨⟨by decide +kernel, ?_⟩, by decide +kernel, ?_⟩
  · rintro ⟨g, hg, _, hga⟩
    have hg : g ∈ [reply 6 1, nextReply 5 0] := hg
    rcases List.mem_pair.mp hg with rfl | rfl
    · exact absurd hga (by decide)
    · exact absurd hga (by decide)
  · rintro ⟨g, hg, _, hga⟩
    have hg : g ∈ [reply 5 0] := hg
    rw [List.mem_singleton.mp hg] at hga
    exact absurd hga (by decide)

end Caller

end DistributedMesh.NodeRpc
