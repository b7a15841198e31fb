import DistributedMesh.DeliveryAcks

namespace DistributedMesh.NodeRpc

open Std (ExtTreeMap ExtTreeSet)
open KeyedMaps GuardedRuns

theorem own_inj {b : Birth} {s t : Nat} : (⟨b, s⟩ : DeliveryId) = ⟨b, t⟩ ↔ s = t := by simp

namespace Delivery

/-- The send window holds `seq`, toward some receiver. -/
def HeldSeq (d : Delivery) (seq : Nat) : Prop := ∃ r, Holds d.send.unacked r seq

/-- The frame the owed response of `id` lists at position `q`. -/
def frameAt (d : Delivery) (id : DeliveryId) (q : Nat) : Option (Nat × Bytes) :=
  d.owed[id]?.bind fun o => o.frames[q]?

/-- The owed response of `id` lists the frame at position `q`, sent as `seq`. -/
def Listed (d : Delivery) (id : DeliveryId) (q seq : Nat) : Prop := ∃ b, d.frameAt id q = some (seq, b)

theorem frameAt_some {d : Delivery} {id : DeliveryId} {o : Owed} (h : d.owed[id]? = some o) (q : Nat) :
    d.frameAt id q = o.frames[q]? := by
  rw [frameAt, h, Option.bind_some]

theorem frameAt_insert (d : Delivery) (id x : DeliveryId) (o : Owed) (q : Nat) :
    { d with owed := d.owed.insert id o }.frameAt x q = if id = x then o.frames[q]? else d.frameAt x q := by
  rw [frameAt, getElem?_insert_eq]
  split
  next => rfl
  next => rfl

theorem frameAt_erase (d : Delivery) (id x : DeliveryId) (q : Nat) :
    { d with owed := d.owed.erase id }.frameAt x q = if id = x then none else d.frameAt x q := by
  rw [frameAt, getElem?_erase_eq]
  split
  next => rfl
  next => rfl

end Delivery

/-- The frames left once one was acked. -/
theorem Owed.frames_of_without {o rest : Owed} {q : Nat} (h : o.without q = some rest) (k : Nat) :
    rest.frames[k]? = if q = k then none else o.frames[k]? := by
  unfold Owed.without at h
  dsimp only at h
  split at h
  next => simp at h
  next =>
    rw [← Option.some.inj h]
    exact getElem?_erase_eq _ _ _

theorem Owed.frames_of_without_none {o : Owed} {q : Nat} (h : o.without q = none) (k : Nat) :
    o.frames[k]? = if q = k then o.frames[q]? else none := by
  unfold Owed.without at h
  dsimp only at h
  split at h
  next he =>
    have hempty := ExtTreeMap.isEmpty_iff.mp (Bool.and_eq_true_iff.mp he).2
    split
    next hk => rw [hk]
    next hk =>
      have hget := getElem?_erase_eq o.frames q k
      rw [hempty, if_neg hk] at hget
      rw [← hget]
      simp
  next => simp at h

namespace Delivery

theorem settleOwn_heldSeq (d : Delivery) (id : DeliveryId) (seq : Nat) :
    (d.settleOwn id).HeldSeq seq ↔ d.HeldSeq seq ∧ (⟨d.me, seq⟩ : DeliveryId) ≠ id := by
  unfold HeldSeq settleOwn
  split
  next he =>
    have hne : (⟨d.me, seq⟩ : DeliveryId) ≠ id ↔ seq ≠ id.deliverySeq := by
      rw [← he]
      exact not_congr own_inj
    rw [hne]
    constructor
    · rintro ⟨r, hr⟩
      obtain ⟨hr, hseq⟩ := (holds_unhold _ _ _ _).mp hr
      exact ⟨⟨r, hr⟩, hseq⟩
    · rintro ⟨⟨r, hr⟩, hseq⟩
      exact ⟨r, (holds_unhold _ _ _ _).mpr ⟨hr, hseq⟩⟩
  next he =>
    have hne : (⟨d.me, seq⟩ : DeliveryId) ≠ id := by
      rintro rfl
      exact he rfl
    simp [hne]

theorem mint_heldSeq (d : Delivery) (r : PublicKey) (others : List PublicKey) (seq : Nat) :
    (d.mint (r :: others)).1.HeldSeq seq ↔ d.HeldSeq seq ∨ seq = d.send.next := by
  constructor
  · rintro ⟨x, hx⟩
    rcases (holds_hold _ _ _ _ _).mp hx with hx | ⟨_, hseq⟩
    · exact Or.inl ⟨x, hx⟩
    · exact Or.inr hseq
  · rintro (⟨x, hx⟩ | hseq)
    · exact ⟨x, (holds_hold _ _ _ _ _).mpr (Or.inl hx)⟩
    · exact ⟨r, (holds_hold _ _ _ _ _).mpr (Or.inr ⟨List.mem_cons_self, hseq⟩)⟩

end Delivery

theorem SendWindow.lowestUnacked_eq_next {w : SendWindow PublicKey compare} {r : PublicKey}
    (h : ∀ seq, ¬ Holds w.unacked r seq) : w.lowestUnacked r = w.next := by
  unfold SendWindow.lowestUnacked
  cases hs : w.unacked[r]? with
  | none => rfl
  | some s =>
    rw [Option.bind_some, ← ExtTreeSet.min?_eq_head?_toList]
    cases hmin : s.min? with
    | none => rfl
    | some k => exact absurd ⟨s, hs, ExtTreeSet.min?_mem hmin⟩ (h k)

/-- A process, the guards of its calls, and the carried attempts whose guard is held. -/
structure Process where
  delivery : Delivery
  guards : ExtTreeSet DeliveryId deliveryCode.cmp
  carried : ExtTreeSet Nat

inductive ProcessAct where
  | call (peer : PublicKey) (others : List PublicKey) (maxReply : Nat) (unary : Bool)
  | openCarried (id : DeliveryId) (maxReply : Nat) (unary : Bool)
  | mintOnce (carrier : PublicKey)
  | dropCarried (seq : Nat)
  | completeCall (id : DeliveryId)
  | dropCall (id : DeliveryId)
  | onResponse (f : ResponseFrame) (back : AckTo)
  | onAck (id : DeliveryId)
  | oweResponse (id : DeliveryId) (replyTo : PublicKey)
  | oweFrame (id : DeliveryId) (seq : Nat) (body : Bytes) (terminal : Bool)
  | dropResponse (id : DeliveryId)
  | answerTo (id : DeliveryId) (replyTo : PublicKey)
  | push (id : DeliveryId) (replyTo : Option PublicKey)
  | pushResend (id : DeliveryId)
  | receiverGone (id : DeliveryId)

namespace Process

def start (me : Birth) : Process := ⟨.new me, ∅, ∅⟩

/-- One operation: a guard ends its call while it is held, and a response whose receiving birth ended
is dropped as one that was reset. -/
def step (p : Process) : ProcessAct → Process
  | .call peer others maxReply unary =>
    let minted := p.delivery.mint (peer :: others)
    { p with
      delivery := minted.1.openCall minted.2 maxReply unary
      guards := p.guards.insert minted.2 }
  | .openCarried id maxReply unary =>
    { p with delivery := p.delivery.openCall id maxReply unary, guards := p.guards.insert id }
  | .mintOnce carrier =>
    let minted := p.delivery.mint [carrier]
    { p with delivery := minted.1, carried := p.carried.insert minted.2.deliverySeq }
  | .dropCarried seq =>
    if seq ∈ p.carried then
      { p with
        delivery := p.delivery.completeCall ⟨p.delivery.me, seq⟩
        carried := p.carried.erase seq }
    else p
  | .completeCall id =>
    if id ∈ p.guards then { p with delivery := p.delivery.completeCall id } else p
  | .dropCall id =>
    if id ∈ p.guards then
      { p with delivery := p.delivery.completeCall id, guards := p.guards.erase id }
    else p
  | .onResponse f back => { p with delivery := (p.delivery.onResponse f back).1 }
  | .onAck id => { p with delivery := p.delivery.onAck id }
  | .oweResponse id replyTo => { p with delivery := p.delivery.oweResponse id replyTo }
  | .oweFrame id seq body terminal => { p with delivery := (p.delivery.oweFrame id seq body terminal).1 }
  | .dropResponse id => { p with delivery := p.delivery.dropResponse id }
  | .answerTo id replyTo => { p with delivery := p.delivery.answerTo id replyTo }
  | .push id replyTo => { p with delivery := (p.delivery.push id replyTo).1 }
  | .pushResend id => { p with delivery := (p.delivery.pushResend id).1 }
  | .receiverGone id => { p with delivery := p.delivery.dropResponse id }

def run (p : Process) (acts : List ProcessAct) : Process := acts.foldl step p

/-- A response is dropped with no frame listed, a frame is owed at a position that lists none, and a
carried call keeps another birth's identity. -/
def StepOk (p : Process) : ProcessAct → Prop
  | .openCarried id _ _ => id.sender ≠ p.delivery.me
  | .oweFrame id seq _ _ => ∀ s, ¬ p.delivery.Listed id seq s
  | .dropResponse id => ∀ q s, ¬ p.delivery.Listed id q s
  | .receiverGone id => ∀ q s, ¬ p.delivery.Listed id q s
  | _ => True

/-- What the window, the sent frames and the owed responses say of one another. -/
structure Tidy (p : Process) : Prop where
  window : ∀ s, p.delivery.HeldSeq s ↔ s ∈ p.carried ∨ (⟨p.delivery.me, s⟩ : DeliveryId) ∈ p.delivery.sent
  minted : ∀ s, (⟨p.delivery.me, s⟩ : DeliveryId) ∈ p.delivery.sent ∨
    (⟨p.delivery.me, s⟩ : DeliveryId) ∈ p.guards ∨ s ∈ p.carried → s < p.delivery.send.next
  request : ∀ id : DeliveryId, p.delivery.sent[id]? = some .request ↔ p.delivery.OpenUnacked id
  response : ∀ (id inv : DeliveryId) (q : Nat), p.delivery.sent[id]? = some (.response inv q) ↔
    id.sender = p.delivery.me ∧ p.delivery.Listed inv q id.deliverySeq
  guarded : ∀ id, id ∈ p.delivery.calls → id ∈ p.guards
  guards : ∀ (id inv : DeliveryId) (q : Nat), id ∈ p.guards → p.delivery.sent[id]? ≠ some (.response inv q)
  carried : ∀ s ∈ p.carried, (⟨p.delivery.me, s⟩ : DeliveryId) ∉ p.delivery.sent ∧
    (⟨p.delivery.me, s⟩ : DeliveryId) ∉ p.guards

/-- What an operation that neither sends nor settles a frame leaves as it is. -/
structure Same (d e : Delivery) : Prop where
  me : e.me = d.me
  send : e.send = d.send
  sent : e.sent = d.sent
  calls : ∀ id, id ∈ e.calls → id ∈ d.calls
  openUnacked : ∀ id, e.OpenUnacked id ↔ d.OpenUnacked id
  listed : ∀ inv q s, e.Listed inv q s ↔ d.Listed inv q s

/-- What an operation does that ends the frame `id`: it leaves the window and all that names it. -/
structure Ends (id : DeliveryId) (d e : Delivery) : Prop where
  me : e.me = d.me
  next : e.send.next = d.send.next
  held : ∀ s, e.HeldSeq s ↔ d.HeldSeq s ∧ (⟨d.me, s⟩ : DeliveryId) ≠ id
  sent : e.sent = d.sent.erase id
  calls : ∀ x, x ∈ e.calls → x ∈ d.calls
  openUnacked : ∀ x, e.OpenUnacked x ↔ d.OpenUnacked x ∧ x ≠ id
  listed : ∀ inv q s, e.Listed inv q s ↔ d.Listed inv q s ∧ (⟨d.me, s⟩ : DeliveryId) ≠ id

section Tidy

variable {p : Process} {e : Delivery} {id : DeliveryId}

theorem Tidy.same (h : Tidy p) (he : Same p.delivery e) : Tidy { p with delivery := e } := by
  have hheld : ∀ s, e.HeldSeq s ↔ p.delivery.HeldSeq s := by
    intro s
    rw [Delivery.HeldSeq, Delivery.HeldSeq, he.send]
  refine ⟨fun s => ?_, fun s => ?_, fun x => ?_, fun x inv q => ?_, fun x hx => ?_, fun x inv q => ?_,
    fun s hs => ?_⟩
  · dsimp only
    rw [hheld, he.me, he.sent]
    exact h.window s
  · dsimp only
    rw [he.me, he.sent, he.send]
    exact h.minted s
  · dsimp only
    rw [he.sent, he.openUnacked]
    exact h.request x
  · dsimp only
    rw [he.sent, he.me, he.listed]
    exact h.response x inv q
  · exact h.guarded x (he.calls x hx)
  · dsimp only
    rw [he.sent]
    exact h.guards x inv q
  · dsimp only
    rw [he.me, he.sent]
    exact h.carried s hs

/-- The frame `id` ended, and with it the guard or the carried attempt that held it. -/
theorem Tidy.ends (h : Tidy p) (he : Ends id p.delivery e)
    {guards : ExtTreeSet DeliveryId deliveryCode.cmp} {carried : ExtTreeSet Nat}
    (hguards : ∀ x, x ∈ guards → x ∈ p.guards) (hcalls : ∀ x, x ∈ e.calls → x ∈ guards)
    (hcarried : ∀ s, s ∈ carried ↔ s ∈ p.carried ∧ (⟨p.delivery.me, s⟩ : DeliveryId) ≠ id) :
    Tidy ⟨e, guards, carried⟩ := by
  have hmem : ∀ x, x ∈ e.sent ↔ x ∈ p.delivery.sent ∧ x ≠ id := by
    intro x
    rw [he.sent, ExtTreeMap.mem_erase, ne_eq, Std.LawfulEqCmp.compare_eq_iff_eq, and_comm, ne_eq, eq_comm]
  have hget : ∀ x, e.sent[x]? = if id = x then none else p.delivery.sent[x]? := by
    intro x
    rw [he.sent, getElem?_erase_eq]
  refine ⟨fun s => ?_, fun s hs => ?_, fun x => ?_, fun x inv q => ?_, hcalls, fun x inv q hx => ?_,
    fun s hs => ?_⟩
  · dsimp only
    rw [he.held, he.me, hmem, h.window, hcarried]
    exact or_and_right
  · dsimp only at hs ⊢
    rw [he.me, hmem, hcarried] at hs
    rw [he.next]
    rcases hs with hs | hs | hs
    · exact h.minted s (Or.inl hs.1)
    · exact h.minted s (Or.inr (Or.inl (hguards _ hs)))
    · exact h.minted s (Or.inr (Or.inr hs.1))
  · dsimp only
    rw [hget, he.openUnacked, ← h.request]
    split
    next hx => simp [hx]
    next hx => simp [Ne.symm hx]
  · dsimp only
    rw [hget, he.me, he.listed]
    split
    next hx =>
      subst hx
      refine ⟨fun hnone => absurd hnone (by simp), ?_⟩
      rintro ⟨hme, _, hne⟩
      rw [← hme] at hne
      exact absurd rfl hne
    next hx =>
      rw [h.response]
      refine and_congr_right fun hme => ?_
      rw [← hme]
      exact (and_iff_left (Ne.symm hx)).symm
  · dsimp only
    rw [hget]
    split
    next => simp
    next => exact h.guards x inv q (hguards x hx)
  · dsimp only at hs ⊢
    rw [he.me, hmem]
    obtain ⟨hsent, hguard⟩ := h.carried s ((hcarried s).mp hs).1
    exact ⟨fun hs' => hsent hs'.1, fun hx => hguard (hguards _ hx)⟩

theorem Tidy.ended (h : Tidy p) (he : Ends id p.delivery e)
    (hid : ∀ s ∈ p.carried, (⟨p.delivery.me, s⟩ : DeliveryId) ≠ id) :
    Tidy { p with delivery := e } :=
  h.ends he (fun _ hx => hx) (fun x hx => h.guarded x (he.calls x hx))
    fun s => ⟨fun hs => ⟨hs, hid s hs⟩, fun hs => hs.1⟩

end Tidy

section Same

variable {d : Delivery}

theorem Same.refl (d : Delivery) : Same d d :=
  ⟨rfl, rfl, rfl, fun _ h => h, fun _ => Iff.rfl, fun _ _ _ => Iff.rfl⟩

theorem same_owed (m : ExtTreeMap DeliveryId Owed deliveryCode.cmp)
    (h : ∀ x q, { d with owed := m }.frameAt x q = d.frameAt x q) : Same d { d with owed := m } := by
  refine ⟨rfl, rfl, rfl, fun _ h => h, fun _ => Iff.rfl, fun x q s => ?_⟩
  rw [Delivery.Listed, Delivery.Listed, h]

/-- A response written back with its frames as they were. -/
theorem same_owed_insert {id : DeliveryId} {o o' : Owed} (h : d.owed[id]? = some o)
    (ho : o'.frames = o.frames) : Same d { d with owed := d.owed.insert id o' } := by
  refine same_owed _ fun x q => ?_
  rw [Delivery.frameAt_insert]
  split
  next hx => rw [← hx, Delivery.frameAt_some h, ho]
  next => rfl

/-- A response that lists no frame dropped. -/
theorem same_owed_erase {id : DeliveryId} (h : ∀ q s, ¬ d.Listed id q s) :
    Same d { d with owed := d.owed.erase id } := by
  refine same_owed _ fun x q => ?_
  rw [Delivery.frameAt_erase]
  split
  next hx =>
    subst hx
    cases hf : d.frameAt id q with
    | none => rfl
    | some f => exact absurd ⟨f.2, hf⟩ (h q f.1)
  next => rfl

theorem not_listed_of_isEmpty {id : DeliveryId} {o : Owed} (h : d.owed[id]? = some o)
    (he : o.frames.isEmpty = true) (q s : Nat) : ¬ d.Listed id q s := by
  rintro ⟨b, hb⟩
  rw [Delivery.frameAt_some h, ExtTreeMap.isEmpty_iff.mp he] at hb
  simp at hb

theorem same_oweResponse (d : Delivery) (id : DeliveryId) (replyTo : PublicKey) :
    Same d (d.oweResponse id replyTo) := by
  cases ho : d.owed[id]? with
  | some o =>
    unfold Delivery.oweResponse
    exact same_owed_insert ho (by rw [ho]; rfl)
  | none =>
    refine same_owed _ fun x q => ?_
    rw [Delivery.frameAt_insert]
    split
    next hx =>
      subst hx
      rw [Delivery.frameAt, ho]
      simp
    next => rfl

theorem same_answerTo (d : Delivery) (id : DeliveryId) (replyTo : PublicKey) :
    Same d (d.answerTo id replyTo) := by
  unfold Delivery.answerTo
  split
  next o ho => exact same_owed_insert ho rfl
  next => exact Same.refl d

theorem same_push (d : Delivery) (id : DeliveryId) (replyTo : Option PublicKey) :
    Same d (d.push id replyTo).1 := by
  unfold Delivery.push
  split
  next => exact Same.refl d
  next o ho =>
    dsimp only
    split
    next he =>
      split
      next => exact same_owed_erase (not_listed_of_isEmpty ho he)
      next => exact same_owed_insert ho rfl
    next =>
      split
      next => exact same_owed_insert ho rfl
      next => exact same_owed_insert ho rfl

theorem same_pushResend (d : Delivery) (id : DeliveryId) : Same d (d.pushResend id).1 := by
  unfold Delivery.pushResend
  split
  next => exact Same.refl d
  next o ho =>
    split
    next he =>
      split
      next => exact same_owed_erase (not_listed_of_isEmpty ho he)
      next => exact same_owed_insert ho rfl
    next => exact Same.refl d

/-- A slot written back with its request acked or not as it was. -/
theorem same_putSlot {id : DeliveryId} {slot slot' : Slot} (h : d.calls[id]? = some slot)
    (hacked : slot'.acked = slot.acked) : Same d (d.putSlot id slot') := by
  have hget : ∀ x, (d.putSlot id slot').calls[x]? = if id = x then some slot' else d.calls[x]? :=
    fun x => getElem?_insert_eq _ _ _ _
  refine ⟨rfl, rfl, rfl, fun x hx => ?_, fun x => ?_, fun _ _ _ => Iff.rfl⟩
  · obtain ⟨s, hs⟩ := (mem_iff_getElem? _ _).mp hx
    rw [hget] at hs
    split at hs
    next hid => rw [← hid]; exact mem_of_lookup h
    next => exact mem_of_lookup hs
  · unfold Delivery.OpenUnacked
    rw [hget]
    split
    next hid =>
      subst hid
      simp [h, hacked]
    next => exact Iff.rfl

end Same

section Ends

variable {p : Process} {id : DeliveryId}

theorem Tidy.listed_ne (h : Tidy p) (hid : ∀ inv q, p.delivery.sent[id]? ≠ some (.response inv q))
    {inv : DeliveryId} {q s : Nat} (hl : p.delivery.Listed inv q s) :
    (⟨p.delivery.me, s⟩ : DeliveryId) ≠ id := by
  rintro rfl
  exact hid inv q ((h.response _ inv q).mpr ⟨rfl, hl⟩)

/-- Ending a call, or a carried attempt: its identity is none of a response frame. -/
theorem Tidy.ends_endCall (h : Tidy p) (hid : ∀ inv q, p.delivery.sent[id]? ≠ some (.response inv q)) :
    Ends id p.delivery (p.delivery.endCall id) := by
  have hcalls : ∀ x, (p.delivery.endCall id).calls[x]? = if id = x then none else p.delivery.calls[x]? := by
    intro x
    rw [Delivery.endCall_calls, getElem?_erase_eq]
  refine ⟨Delivery.endCall_me _ _, ?_, fun s => ?_, Delivery.endCall_sent _ _, fun x hx => ?_, fun x => ?_,
    fun inv q s => ?_⟩
  · rw [Delivery.endCall_send, Delivery.settleOwn_next]
  · rw [Delivery.HeldSeq, Delivery.endCall_send]
    exact Delivery.settleOwn_heldSeq _ id s
  · rw [Delivery.endCall_calls] at hx
    exact ExtTreeMap.mem_of_mem_erase hx
  · unfold Delivery.OpenUnacked
    rw [hcalls]
    split
    next hx => simp [hx]
    next hx => simp [Ne.symm hx]
  · have hframe : (p.delivery.endCall id).frameAt inv q = p.delivery.frameAt inv q := by
      rw [Delivery.frameAt, Delivery.endCall_owed]
      rfl
    rw [Delivery.Listed, hframe]
    exact ⟨fun hl => ⟨hl, h.listed_ne hid hl⟩, fun hl => hl.1⟩

theorem Tidy.ends_requestAcked (h : Tidy p) (hid : p.delivery.sent[id]? = some .request) :
    Ends id p.delivery (p.delivery.requestAcked id).1 := by
  obtain ⟨slot, hslot, _⟩ := (h.request id).mp hid
  have hacked : (p.delivery.requestAcked id).1 =
      { Delivery.settleOwn { p.delivery with sent := p.delivery.sent.erase id } id with
        calls := p.delivery.calls.insert id { slot with acked := true } } := by
    simp only [Delivery.requestAcked, hid, Delivery.settleOwn_calls, hslot]
  rw [hacked]
  refine ⟨Delivery.settleOwn_me _ _, Delivery.settleOwn_next _ _, fun s => Delivery.settleOwn_heldSeq _ id s,
    Delivery.settleOwn_sent _ _, fun x hx => ?_, fun x => ?_, fun inv q s => ?_⟩
  · rw [mem_insert_map] at hx
    rcases hx with rfl | hx
    · exact mem_of_lookup hslot
    · exact hx
  · unfold Delivery.OpenUnacked
    dsimp only
    rw [getElem?_insert_eq]
    split
    next hx => simp [hx]
    next hx => simp [Ne.symm hx]
  · have hframe : { Delivery.settleOwn { p.delivery with sent := p.delivery.sent.erase id } id with
        calls := p.delivery.calls.insert id { slot with acked := true } }.frameAt inv q =
          p.delivery.frameAt inv q := by
      rw [Delivery.frameAt]
      dsimp only
      rw [Delivery.settleOwn_owed]
      rfl
    rw [Delivery.Listed, hframe]
    refine ⟨fun hl => ⟨hl, h.listed_ne (fun inv q he => ?_) hl⟩, fun hl => hl.1⟩
    rw [hid] at he
    simp at he

theorem Tidy.requestAcked (h : Tidy p) (id : DeliveryId) :
    Tidy { p with delivery := (p.delivery.requestAcked id).1 } := by
  by_cases hid : p.delivery.sent[id]? = some .request
  · refine h.ended (h.ends_requestAcked hid) fun s hs he => ?_
    rw [← he] at hid
    exact (h.carried s hs).1 (mem_of_lookup hid)
  · have hsame : (p.delivery.requestAcked id).1 = p.delivery := by
      unfold Delivery.requestAcked
      split
      next he => exact absurd he hid
      next => rfl
    rw [hsame]
    exact h

theorem Tidy.carried_ne (h : Tidy p) (hid : id ∈ p.guards) :
    ∀ s ∈ p.carried, (⟨p.delivery.me, s⟩ : DeliveryId) ≠ id := by
  rintro s hs rfl
  exact (h.carried s hs).2 hid

theorem Tidy.endCall (h : Tidy p) (hid : id ∈ p.guards) :
    Tidy { p with delivery := p.delivery.endCall id } :=
  h.ended (h.ends_endCall fun inv q => h.guards id inv q hid) (h.carried_ne hid)

theorem Tidy.dropCall (h : Tidy p) (hid : id ∈ p.guards) :
    Tidy { p with delivery := p.delivery.completeCall id, guards := p.guards.erase id } := by
  have hends := h.ends_endCall fun inv q => h.guards id inv q hid
  refine h.ends hends (fun x hx => ExtTreeSet.mem_of_mem_erase hx) (fun x hx => ?_) fun s => ?_
  · rw [ExtTreeSet.mem_erase, ne_eq, Std.LawfulEqCmp.compare_eq_iff_eq]
    refine ⟨?_, h.guarded x (hends.calls x hx)⟩
    rintro rfl
    have hx : id ∈ (p.delivery.endCall id).calls := hx
    rw [Delivery.endCall_calls, ExtTreeMap.mem_erase] at hx
    exact hx.1 Std.ReflCmp.compare_self
  · exact ⟨fun hs => ⟨hs, h.carried_ne hid s hs⟩, fun hs => hs.1⟩

theorem Tidy.dropCarried (h : Tidy p) {s : Nat} (hs : s ∈ p.carried) :
    Tidy { p with
      delivery := p.delivery.completeCall ⟨p.delivery.me, s⟩
      carried := p.carried.erase s } := by
  obtain ⟨hsent, _⟩ := h.carried s hs
  have hends : Ends ⟨p.delivery.me, s⟩ p.delivery (p.delivery.endCall ⟨p.delivery.me, s⟩) :=
    h.ends_endCall fun inv q he => hsent (mem_of_lookup he)
  refine h.ends hends (fun _ hx => hx) (fun x hx => h.guarded x (hends.calls x hx)) fun k => ?_
  rw [mem_erase_iff, ne_eq, ne_eq, own_inj]

/-- The ack of a response frame: the frame leaves its owed response too. -/
theorem Tidy.ends_onAck (h : Tidy p) {inv : DeliveryId} {q : Nat}
    (hid : p.delivery.sent[id]? = some (.response inv q)) : Ends id p.delivery (p.delivery.onAck id) := by
  obtain ⟨hme, b, hframe⟩ := (h.response id inv q).mp hid
  obtain ⟨o, ho, hframe⟩ := Option.bind_eq_some_iff.mp hframe
  obtain ⟨m, hack, hm⟩ : ∃ m, p.delivery.onAck id =
        { Delivery.settleOwn { p.delivery with sent := p.delivery.sent.erase id } id with owed := m } ∧
      ∀ x k, { p.delivery with owed := m }.frameAt x k =
        if inv = x ∧ q = k then none else p.delivery.frameAt x k := by
    cases hw : o.without q with
    | none =>
      refine ⟨p.delivery.owed.erase inv, ?_, fun x k => ?_⟩
      · simp only [Delivery.onAck, Delivery.requestAcked, hid, Delivery.settleOwn_owed, ho, hw]
      · rw [Delivery.frameAt_erase]
        have hempty := Owed.frames_of_without_none hw
        by_cases hx : inv = x
        · subst hx
          rw [if_pos rfl, Delivery.frameAt_some ho, hempty]
          by_cases hk : q = k
          · rw [if_pos ⟨rfl, hk⟩]
          · rw [if_neg (fun h => hk h.2), if_neg hk]
        · rw [if_neg hx, if_neg (fun h => hx h.1)]
    | some rest =>
      refine ⟨p.delivery.owed.insert inv rest, ?_, fun x k => ?_⟩
      · simp only [Delivery.onAck, Delivery.requestAcked, hid, Delivery.settleOwn_owed, ho, hw]
      · rw [Delivery.frameAt_insert, Owed.frames_of_without hw]
        by_cases hx : inv = x
        · subst hx
          rw [if_pos rfl, Delivery.frameAt_some ho]
          by_cases hk : q = k
          · rw [if_pos hk, if_pos ⟨rfl, hk⟩]
          · rw [if_neg hk, if_neg (fun h => hk h.2)]
        · rw [if_neg hx, if_neg (fun h => hx h.1)]
  have hlisted : ∀ x k, (p.delivery.onAck id).frameAt x k =
      if inv = x ∧ q = k then none else p.delivery.frameAt x k := by
    intro x k
    rw [hack]
    exact hm x k
  rw [hack] at hlisted ⊢
  refine ⟨Delivery.settleOwn_me _ _, Delivery.settleOwn_next _ _, fun s => Delivery.settleOwn_heldSeq _ id s,
    Delivery.settleOwn_sent _ _, fun x hx => ?_, fun x => ?_, fun x k s => ?_⟩
  · dsimp only at hx
    rw [Delivery.settleOwn_calls] at hx
    exact hx
  · have hcalls : (Delivery.settleOwn { p.delivery with sent := p.delivery.sent.erase id } id).calls =
        p.delivery.calls := Delivery.settleOwn_calls _ _
    unfold Delivery.OpenUnacked
    dsimp only
    rw [hcalls]
    refine ⟨fun hx => ⟨hx, ?_⟩, fun hx => hx.1⟩
    rintro rfl
    have hrequest := (h.request x).mpr hx
    rw [hid] at hrequest
    simp at hrequest
  · rw [Delivery.Listed, hlisted, Delivery.Listed]
    split
    next hx =>
      obtain ⟨rfl, rfl⟩ := hx
      refine ⟨fun hl => absurd hl (by simp), ?_⟩
      rintro ⟨⟨b', hb'⟩, hne⟩
      rw [Delivery.frameAt_some ho, hframe] at hb'
      cases hb'
      rw [← hme] at hne
      exact absurd rfl hne
    next hx =>
      refine ⟨fun hl => ⟨hl, ?_⟩, fun hl => hl.1⟩
      intro he
      have hsent := (h.response id x k).mpr ⟨hme, by rw [← he]; exact hl⟩
      rw [hid] at hsent
      cases hsent
      exact hx ⟨rfl, rfl⟩

theorem Tidy.onAck (h : Tidy p) (id : DeliveryId) : Tidy { p with delivery := p.delivery.onAck id } := by
  cases hs : p.delivery.sent[id]? with
  | none =>
    have hsent : p.delivery.sent.erase id = p.delivery.sent := by
      refine ExtTreeMap.ext_getElem? fun x => ?_
      rw [getElem?_erase_eq]
      split
      next hx => rw [← hx, hs]
      next => rfl
    have hack : p.delivery.onAck id = p.delivery := by
      simp only [Delivery.onAck, Delivery.requestAcked, hs, hsent]
    rw [hack]
    exact h
  | some sent =>
    have hcarried : ∀ s ∈ p.carried, (⟨p.delivery.me, s⟩ : DeliveryId) ≠ id := by
      rintro s hs' rfl
      exact (h.carried s hs').1 (mem_of_lookup hs)
    cases sent with
    | request =>
      have hack : p.delivery.onAck id = (p.delivery.requestAcked id).1 := by
        simp only [Delivery.onAck, Delivery.requestAcked, hs]
      rw [hack]
      exact h.requestAcked id
    | response inv q => exact h.ended (h.ends_onAck hs) hcarried

end Ends

section Sends

variable {p : Process}

/-- A minted identity is new to the process. -/
theorem Tidy.fresh (h : Tidy p) : (⟨p.delivery.me, p.delivery.send.next⟩ : DeliveryId) ∉ p.delivery.sent ∧
    (⟨p.delivery.me, p.delivery.send.next⟩ : DeliveryId) ∉ p.guards ∧ p.delivery.send.next ∉ p.carried := by
  refine ⟨fun hx => ?_, fun hx => ?_, fun hx => ?_⟩
  · exact Nat.lt_irrefl _ (h.minted _ (Or.inl hx))
  · exact Nat.lt_irrefl _ (h.minted _ (Or.inr (Or.inl hx)))
  · exact Nat.lt_irrefl _ (h.minted _ (Or.inr (Or.inr hx)))

/-- A call opened under `id`, held in the window `w` when it is this process's own. -/
theorem Tidy.opened (h : Tidy p) {id : DeliveryId} {w : SendWindow PublicKey compare}
    (hheld : ∀ s, (∃ r, Holds w.unacked r s) ↔
      p.delivery.HeldSeq s ∨ (⟨p.delivery.me, s⟩ : DeliveryId) = id)
    (hnext : p.delivery.send.next ≤ w.next)
    (hminted : ∀ s, (⟨p.delivery.me, s⟩ : DeliveryId) = id → s < w.next)
    (hresponse : ∀ inv q, p.delivery.sent[id]? ≠ some (.response inv q))
    (hcarried : ∀ s ∈ p.carried, (⟨p.delivery.me, s⟩ : DeliveryId) ≠ id) (maxReply : Nat)
    (unary : Bool) :
    Tidy { p with
      delivery := { p.delivery with send := w }.openCall id maxReply unary
      guards := p.guards.insert id } := by
  have hsent : ∀ x : DeliveryId, (p.delivery.sent.insert id Sent.request)[x]? =
      if id = x then some .request else p.delivery.sent[x]? := fun x => getElem?_insert_eq _ _ _ _
  have hmem : ∀ x : DeliveryId, x ∈ p.delivery.sent.insert id Sent.request ↔ x = id ∨ x ∈ p.delivery.sent :=
    fun x => mem_insert_map _ _ _ x
  have hguards : ∀ x, x ∈ p.guards.insert id ↔ x = id ∨ x ∈ p.guards := fun x => mem_insert_set _ _ x
  refine ⟨fun s => ?_, fun s hs => ?_, fun x => ?_, fun x inv q => ?_, fun x hx => ?_, fun x inv q hx => ?_,
    fun s hs => ?_⟩
  · have hw : (∃ r, Holds w.unacked r s) ↔
        s ∈ p.carried ∨ (⟨p.delivery.me, s⟩ : DeliveryId) ∈ p.delivery.sent.insert id .request := by
      rw [hheld, h.window, hmem, or_assoc, or_comm (b := (⟨p.delivery.me, s⟩ : DeliveryId) = id)]
    exact hw
  · have hs : (⟨p.delivery.me, s⟩ : DeliveryId) ∈ p.delivery.sent.insert id Sent.request ∨
        (⟨p.delivery.me, s⟩ : DeliveryId) ∈ p.guards.insert id ∨ s ∈ p.carried := hs
    rw [hmem, hguards] at hs
    have hwas : ∀ k, (⟨p.delivery.me, k⟩ : DeliveryId) ∈ p.delivery.sent ∨
        (⟨p.delivery.me, k⟩ : DeliveryId) ∈ p.guards ∨ k ∈ p.carried → k < w.next :=
      fun k hk => Nat.lt_of_lt_of_le (h.minted k hk) hnext
    rcases hs with (hs | hs) | (hs | hs) | hs
    · exact hminted s hs
    · exact hwas s (Or.inl hs)
    · exact hminted s hs
    · exact hwas s (Or.inr (Or.inl hs))
    · exact hwas s (Or.inr (Or.inr hs))
  · have hopen : ({ p.delivery with send := w }.openCall id maxReply unary).OpenUnacked x ↔
        x = id ∨ p.delivery.OpenUnacked x := Delivery.openUnacked_openCall
    have hget : (p.delivery.sent.insert id Sent.request)[x]? = some .request ↔
        x = id ∨ p.delivery.sent[x]? = some .request := by
      rw [hsent]
      split
      next hx => simp [hx]
      next hx => simp [Ne.symm hx]
    dsimp only
    rw [hopen, ← h.request]
    exact hget
  · have hget : (p.delivery.sent.insert id Sent.request)[x]? = some (.response inv q) ↔
        p.delivery.sent[x]? = some (.response inv q) := by
      rw [hsent]
      split
      next hx =>
        refine ⟨fun he => absurd he (by simp), fun he => ?_⟩
        rw [← hx] at he
        exact absurd he (hresponse inv q)
      next => exact Iff.rfl
    exact hget.trans (h.response x inv q)
  · have hx : x ∈ p.delivery.calls.insert id ⟨.new, maxReply, unary, false, ∅⟩ := hx
    rw [mem_insert_map] at hx
    refine (hguards x).mpr ?_
    rcases hx with rfl | hx
    · exact Or.inl rfl
    · exact Or.inr (h.guarded x hx)
  · have hget : (p.delivery.sent.insert id Sent.request)[x]? ≠ some (.response inv q) := by
      rw [hsent]
      split
      next => simp
      next hne =>
        rcases (hguards x).mp hx with rfl | hx
        · exact absurd rfl hne
        · exact h.guards x inv q hx
    exact hget
  · refine ⟨fun hx => ?_, fun hx => ?_⟩
    · rcases (hmem _).mp hx with he | hx
      · exact hcarried s hs he
      · exact (h.carried s hs).1 hx
    · rcases (hguards _).mp hx with he | hx
      · exact hcarried s hs he
      · exact (h.carried s hs).2 hx

theorem Tidy.call (h : Tidy p) (peer : PublicKey) (others : List PublicKey) (maxReply : Nat)
    (unary : Bool) : Tidy (p.step (.call peer others maxReply unary)) := by
  obtain ⟨hsent, _, hcarried⟩ := h.fresh
  refine h.opened (w := (p.delivery.send.mint (peer :: others)).1) (fun s => ?_) (Nat.le_succ _)
    (fun s hs => ?_) (fun inv q he => hsent (mem_of_lookup he)) (fun s hs he => ?_) maxReply unary
  · rw [own_inj]
    exact p.delivery.mint_heldSeq peer others s
  · rw [own_inj.mp hs]
    exact Nat.lt_succ_self _
  · rw [own_inj.mp he] at hs
    exact hcarried hs

theorem Tidy.openCarried (h : Tidy p) {id : DeliveryId} (hid : id.sender ≠ p.delivery.me)
    (maxReply : Nat) (unary : Bool) : Tidy (p.step (.openCarried id maxReply unary)) := by
  have hne : ∀ s, (⟨p.delivery.me, s⟩ : DeliveryId) ≠ id := by
    rintro s rfl
    exact hid rfl
  refine h.opened (w := p.delivery.send) (fun s => ?_) (Nat.le_refl _) (fun s hs => absurd hs (hne s))
    (fun inv q he => hid ((h.response id inv q).mp he).1) (fun s _ => hne s) maxReply unary
  exact ⟨Or.inl, fun hs => hs.resolve_right (hne s)⟩

theorem Tidy.mintOnce (h : Tidy p) (carrier : PublicKey) : Tidy (p.step (.mintOnce carrier)) := by
  obtain ⟨hsent, hguards, _⟩ := h.fresh
  have hnext : ((p.delivery.mint [carrier]).1).send.next = p.delivery.send.next + 1 := rfl
  have hcarried : ∀ s, s ∈ p.carried.insert p.delivery.send.next ↔ s ∈ p.carried ∨ s = p.delivery.send.next :=
    fun s => mem_insert_iff _ _ _
  refine ⟨fun s => ?_, fun s hs => ?_, h.request, h.response, h.guarded, h.guards, fun s hs => ?_⟩
  · have hw : (p.delivery.mint [carrier]).1.HeldSeq s ↔ s ∈ p.carried.insert p.delivery.send.next ∨
        (⟨p.delivery.me, s⟩ : DeliveryId) ∈ p.delivery.sent := by
      rw [p.delivery.mint_heldSeq, h.window, hcarried, or_right_comm]
    exact hw
  · have hs : (⟨p.delivery.me, s⟩ : DeliveryId) ∈ p.delivery.sent ∨
        (⟨p.delivery.me, s⟩ : DeliveryId) ∈ p.guards ∨ s ∈ p.carried.insert p.delivery.send.next := hs
    rw [hcarried] at hs
    refine Nat.lt_of_lt_of_eq ?_ hnext.symm
    rcases hs with hs | hs | hs | rfl
    · exact Nat.lt_succ_of_lt (h.minted s (Or.inl hs))
    · exact Nat.lt_succ_of_lt (h.minted s (Or.inr (Or.inl hs)))
    · exact Nat.lt_succ_of_lt (h.minted s (Or.inr (Or.inr hs)))
    · exact Nat.lt_succ_self _
  · rcases (hcarried s).mp hs with hs | rfl
    · exact h.carried s hs
    · exact ⟨hsent, hguards⟩

/-- What owing a frame does: it mints the frame's identity, and lists it at its position. -/
structure Owes (id : DeliveryId) (q : Nat) (d e : Delivery) : Prop where
  me : e.me = d.me
  next : e.send.next = d.send.next + 1
  held : ∀ s, e.HeldSeq s ↔ d.HeldSeq s ∨ s = d.send.next
  calls : e.calls = d.calls
  sent : ∀ x : DeliveryId, e.sent[x]? =
    if ⟨d.me, d.send.next⟩ = x then some (.response id q) else d.sent[x]?
  listed : ∀ x k s, e.Listed x k s ↔ (x = id ∧ k = q ∧ s = d.send.next) ∨ d.Listed x k s

/-- A frame owed at a position that lists none. -/
theorem owes_oweFrame {d : Delivery} {id : DeliveryId} {q : Nat} {o : Owed} (ho : d.owed[id]? = some o)
    (hq : ∀ s, ¬ d.Listed id q s) (body : Bytes) (terminal : Bool) :
    Owes id q d (d.oweFrame id q body terminal).1 := by
  simp only [Delivery.oweFrame, ho]
  refine ⟨rfl, rfl, d.mint_heldSeq o.replyTo [], rfl, fun x => getElem?_insert_eq _ _ _ _, fun x k s => ?_⟩
  have hframe := d.frameAt_insert id x { o with
    frames := o.frames.insert q (d.send.next, body)
    complete := o.complete || terminal } k
  refine (exists_congr fun b => Eq.congr_left hframe).trans ?_
  by_cases hx : id = x
  · subst hx
    by_cases hk : q = k
    · subst hk
      have hnone := hq s
      rw [if_pos rfl, getElem?_insert_eq, if_pos rfl]
      simp [hnone, eq_comm]
    · rw [if_pos rfl, getElem?_insert_eq, if_neg hk, ← Delivery.frameAt_some ho]
      simp [Ne.symm hk, Delivery.Listed]
  · rw [if_neg hx]
    simp [Ne.symm hx, Delivery.Listed]

theorem Tidy.owes (h : Tidy p) {id : DeliveryId} {q : Nat} {e : Delivery} (he : Owes id q p.delivery e) :
    Tidy { p with delivery := e } := by
  obtain ⟨hfresh, hguards, hcarried⟩ := h.fresh
  have hmem : ∀ x : DeliveryId, x ∈ e.sent ↔ x = ⟨p.delivery.me, p.delivery.send.next⟩ ∨
      x ∈ p.delivery.sent := by
    intro x
    rw [mem_iff_getElem?, he.sent]
    split
    next hx => simp [← hx]
    next hx => simp [Ne.symm hx, mem_iff_getElem?]
  refine ⟨fun s => ?_, fun s hs => ?_, fun x => ?_, fun x inv k => ?_, fun x hx => ?_,
    fun x inv k hx => ?_, fun s hs => ?_⟩
  · dsimp only
    rw [he.held, he.me, hmem, own_inj, h.window, or_assoc, or_comm (b := s = p.delivery.send.next)]
  · dsimp only at hs ⊢
    rw [he.me, hmem, own_inj] at hs
    rw [he.next]
    rcases hs with (rfl | hs) | hs
    · exact Nat.lt_succ_self _
    · exact Nat.lt_succ_of_lt (h.minted s (Or.inl hs))
    · exact Nat.lt_succ_of_lt (h.minted s (Or.inr hs))
  · dsimp only
    rw [Delivery.OpenUnacked, he.calls, ← Delivery.OpenUnacked, ← h.request, he.sent]
    split
    next hx =>
      subst hx
      exact ⟨fun hs => absurd hs (by simp), fun hs => absurd (mem_of_lookup hs) hfresh⟩
    next => exact Iff.rfl
  · dsimp only
    rw [he.sent, he.me, he.listed]
    split
    next hx =>
      subst hx
      have hnot : ¬ p.delivery.Listed inv k p.delivery.send.next := by
        intro hl
        exact hfresh (mem_of_lookup ((h.response _ inv k).mpr ⟨rfl, hl⟩))
      simp [hnot, eq_comm]
    next hx =>
      rw [h.response]
      refine and_congr_right fun hsender => ?_
      refine ⟨Or.inr, fun hl => hl.resolve_left ?_⟩
      rintro ⟨_, _, hseq⟩
      exact hx (by rw [← hsender, ← hseq])
  · rw [he.calls] at hx
    exact h.guarded x hx
  · dsimp only
    rw [he.sent]
    split
    next hnew =>
      rw [← hnew] at hx
      exact absurd hx hguards
    next => exact h.guards x inv k hx
  · dsimp only
    rw [he.me, hmem, own_inj]
    refine ⟨fun hx => ?_, (h.carried s hs).2⟩
    rcases hx with rfl | hx
    · exact hcarried hs
    · exact (h.carried s hs).1 hx

end Sends

section Runs

variable {p : Process}

theorem Tidy.onResponse (h : Tidy p) (f : ResponseFrame) (back : AckTo) :
    Tidy { p with delivery := (p.delivery.onResponse f back).1 } := by
  have hacked := h.requestAcked f.invocation
  cases hslot : (p.delivery.requestAcked f.invocation).1.calls[f.invocation]? with
  | none =>
    simp only [Delivery.onResponse, hslot]
    exact hacked
  | some slot =>
    have hresponds := Delivery.responds back hslot
    generalize p.delivery.onResponse f back = out at hresponds
    generalize slot.takes f = took at hresponds
    generalize (p.delivery.requestAcked f.invocation).1 = d at hacked hslot hresponds
    have hput : ∀ x : Slot, x.acked = slot.acked → Tidy { p with delivery := d.putSlot f.invocation x } := by
      intro x hx
      exact hacked.same (same_putSlot hslot hx)
    cases hresponds with
    | moved => exact hput _ rfl
    | acked => exact hput _ rfl
    | refused => exact hput _ rfl
    | ahead => exact hput _ rfl
    | @handed order frames e hin he =>
      have hrecord := hput ({ slot with order }.record f.sender back frames) Slot.record_acked
      rcases he with rfl | rfl
      · exact hrecord
      · have hguard : f.invocation ∈ p.guards := hacked.guarded _ (mem_of_lookup hslot)
        exact hrecord.endCall hguard

/-- One operation keeps the window, the sent frames and the owed responses in step. -/
theorem Tidy.step (h : Tidy p) (act : ProcessAct) (hok : p.StepOk act) : Tidy (p.step act) := by
  cases act with
  | call peer others maxReply unary => exact h.call peer others maxReply unary
  | openCarried id maxReply unary => exact h.openCarried hok maxReply unary
  | mintOnce carrier => exact h.mintOnce carrier
  | dropCarried seq =>
    simp only [Process.step]
    split
    next hs => exact h.dropCarried hs
    next => exact h
  | completeCall id =>
    simp only [Process.step]
    split
    next hid => exact h.endCall hid
    next => exact h
  | dropCall id =>
    simp only [Process.step]
    split
    next hid => exact h.dropCall hid
    next => exact h
  | onResponse f back => exact h.onResponse f back
  | onAck id => exact h.onAck id
  | oweResponse id replyTo => exact h.same (same_oweResponse p.delivery id replyTo)
  | oweFrame id seq body terminal =>
    cases ho : p.delivery.owed[id]? with
    | none =>
      simp only [Process.step, Delivery.oweFrame, ho]
      exact h
    | some o => exact h.owes (owes_oweFrame ho hok body terminal)
  | dropResponse id => exact h.same (same_owed_erase hok)
  | answerTo id replyTo => exact h.same (same_answerTo p.delivery id replyTo)
  | push id replyTo => exact h.same (same_push p.delivery id replyTo)
  | pushResend id => exact h.same (same_pushResend p.delivery id)
  | receiverGone id => exact h.same (same_owed_erase hok)

theorem Tidy.start (me : Birth) : Tidy (start me) := by
  have hheld : ∀ s, ¬ (Process.start me).delivery.HeldSeq s := by
    rintro s ⟨r, x, hx, _⟩
    simp [Process.start, Delivery.new, SendWindow.new] at hx
  refine ⟨fun s => ?_, ?_, fun id => ?_, fun id inv q => ?_, ?_, ?_, ?_⟩
  · refine ⟨fun hs => absurd hs (hheld s), ?_⟩
    simp [Process.start, Delivery.new]
  · simp [Process.start, Delivery.new]
  · simp [Process.start, Delivery.new, Delivery.OpenUnacked]
  · simp [Process.start, Delivery.new, Delivery.Listed, Delivery.frameAt]
  · simp [Process.start, Delivery.new]
  · simp [Process.start]
  · simp [Process.start]

/-- In every run in which no response that lists a frame is dropped and no frame is owed over a
listed one, the window holds exactly the requests neither ended nor acked, the carried attempts
whose guard is held, and the listed response frames; with none of these, it is empty. -/
theorem window_holds_unsettled {me : Birth} {acts : List ProcessAct}
    (hok : RunOk Process.step Process.StepOk (Process.start me) acts) :
    let p := (Process.start me).run acts
    (∀ s, p.delivery.HeldSeq s ↔ p.delivery.OpenUnacked ⟨p.delivery.me, s⟩ ∨ s ∈ p.carried ∨
        ∃ inv q, p.delivery.Listed inv q s) ∧
      ((∀ id, id ∉ p.delivery.calls) → (∀ s, s ∉ p.carried) → (∀ inv, inv ∉ p.delivery.owed) →
        ∀ r, p.delivery.send.lowestUnacked r = p.delivery.send.next) := by
  intro p
  have hp : Tidy p := hok.invariant (fun p act h => h.step act) (Tidy.start me)
  have hheld : ∀ s, p.delivery.HeldSeq s ↔ p.delivery.OpenUnacked ⟨p.delivery.me, s⟩ ∨ s ∈ p.carried ∨
      ∃ inv q, p.delivery.Listed inv q s := by
    intro s
    rw [hp.window, mem_iff_getElem?]
    constructor
    · rintro (hs | ⟨sent, hs⟩)
      · exact Or.inr (Or.inl hs)
      · cases sent with
        | request => exact Or.inl ((hp.request _).mp hs)
        | response inv q => exact Or.inr (Or.inr ⟨inv, q, ((hp.response _ inv q).mp hs).2⟩)
    · rintro (hs | hs | ⟨inv, q, hl⟩)
      · exact Or.inr ⟨_, (hp.request _).mpr hs⟩
      · exact Or.inl hs
      · exact Or.inr ⟨_, (hp.response ⟨p.delivery.me, s⟩ inv q).mpr ⟨rfl, hl⟩⟩
  refine ⟨hheld, fun hcalls hcarried howed r => SendWindow.lowestUnacked_eq_next fun s hs => ?_⟩
  rcases (hheld s).mp ⟨r, hs⟩ with ⟨slot, hslot, _⟩ | hs | ⟨inv, q, b, hframe⟩
  · exact hcalls _ (mem_of_lookup hslot)
  · exact hcarried s hs
  · obtain ⟨o, ho, _⟩ := Option.bind_eq_some_iff.mp hframe
    exact howed inv (mem_of_lookup ho)

end Runs

def process : Birth := ⟨"n1", "i1"⟩

def asking : DeliveryId := ⟨⟨"n2", "i1"⟩, 7⟩

/-- A call acked and completed, and a response owed, acked and so owed no longer. -/
def settling : List ProcessAct :=
  [.call "P" [] 64 true, .oweResponse asking "P", .oweFrame asking 0 [1] true, .onAck ⟨process, 1⟩,
    .onAck ⟨process, 2⟩, .dropCall ⟨process, 1⟩]

theorem window_holds_unsettled_settling :
    let p := (start process).run settling
    p.delivery.calls.isEmpty = true ∧ p.delivery.owed.isEmpty = true ∧
      p.delivery.send.lowestUnacked "P" = p.delivery.send.next := by
  have hcalls : ((start process).run settling).delivery.calls.isEmpty = true := by decide +kernel
  have howed : ((start process).run settling).delivery.owed.isEmpty = true := by decide +kernel
  have hcarried : ((start process).run settling).carried.isEmpty = true := by decide +kernel
  have hok : RunOk step StepOk (start process) settling := by
    refine ⟨trivial, trivial, ?_, trivial, trivial, trivial, trivial⟩
    rintro s ⟨b, hb⟩
    have hnone : (((start process).run (settling.take 2)).delivery.frameAt asking 0) = none := by
      decide +kernel
    have hb : (((start process).run (settling.take 2)).delivery.frameAt asking 0) = some (s, b) := hb
    rw [hnone] at hb
    simp at hb
  refine ⟨hcalls, howed, ?_⟩
  refine (window_holds_unsettled hok).2 (fun id => ?_) (fun s => ?_) (fun inv => ?_) "P"
  · rw [ExtTreeMap.isEmpty_iff.mp hcalls]
    exact ExtTreeMap.not_mem_empty
  · rw [ExtTreeSet.isEmpty_iff.mp hcarried]
    exact ExtTreeSet.not_mem_empty
  · rw [ExtTreeMap.isEmpty_iff.mp howed]
    exact ExtTreeMap.not_mem_empty

/-- A response with a frame listed ends by `act`. -/
def unacked (act : ProcessAct) : Process :=
  (start process).run [.oweResponse asking "P", .oweFrame asking 0 [1] true, act]

/-- A response dropped with a frame listed, when it is reset or its receiver is gone: nothing is
open or owed, and the frame stays in the window. -/
theorem dropped_response_pins_window :
    ((unacked (.dropResponse asking)).delivery.calls.isEmpty = true ∧
      (unacked (.dropResponse asking)).carried.isEmpty = true ∧
      (unacked (.dropResponse asking)).delivery.owed.isEmpty = true ∧
      (unacked (.dropResponse asking)).delivery.send.lowestUnacked "P" ≠
        (unacked (.dropResponse asking)).delivery.send.next) ∧
    ((unacked (.receiverGone asking)).delivery.calls.isEmpty = true ∧
      (unacked (.receiverGone asking)).carried.isEmpty = true ∧
      (unacked (.receiverGone asking)).delivery.owed.isEmpty = true ∧
      (unacked (.receiverGone asking)).delivery.send.lowestUnacked "P" ≠
        (unacked (.receiverGone asking)).delivery.send.next) := by
  constructor
  · decide +kernel
  · decide +kernel

end Process

end DistributedMesh.NodeRpc
