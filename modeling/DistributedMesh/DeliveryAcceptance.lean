import Mathlib.Data.List.Induction
import DistributedMesh.DeliveryCalls

namespace DistributedMesh.NodeRpc

open Std (ExtTreeMap)
open KeyedMaps

theorem Delivery.lowestUnacked_le {d : Delivery} {receivers : List PublicKey} {r : PublicKey}
    (hr : r ∈ receivers) : d.lowestUnacked receivers ≤ d.send.lowestUnacked r := by
  unfold Delivery.lowestUnacked
  cases hmin : (receivers.map d.send.lowestUnacked).min? with
  | none =>
    rw [List.min?_eq_none_iff] at hmin
    have hmem := List.mem_map_of_mem (f := d.send.lowestUnacked) hr
    simp [hmin] at hmem
  | some low => exact (List.min?_eq_some_iff.mp hmin).2 _ (List.mem_map_of_mem hr)

namespace Net

theorem openUnacked_opened {s : Net} {receivers : List PublicKey} {primary : Bool}
    {birth : Option String} {maxReply : Nat} {unary : Bool} {seq : Nat}
    (h : (s.opened receivers primary birth maxReply unary).OpenUnacked seq) :
    seq = s.sender.send.next ∨ s.OpenUnacked seq := by
  rcases Delivery.openUnacked_openCall.mp h with hid | hs
  · exact Or.inl (congrArg DeliveryId.deliverySeq hid)
  · exact Or.inr hs

/-- What every reachable state of a run keeps: no frame toward a receiver of an open, unacked call
carries a watermark past the call. -/
structure NetOk (s : Net) : Prop where
  attempts : ∀ (seq : Nat) (a : Attempts), s.attempts[seq]? = some a →
    a.id = ⟨s.sender.me, seq⟩ ∧ a.carriedFloor = none ∧ seq < s.sender.send.next
  calls : ∀ seq, s.OpenUnacked seq → seq ∈ s.attempts
  wire : ∀ f ∈ s.wire, f.2.sender = s.sender.me ∧ f.2.deliverySeq < s.sender.send.next ∧
    f.2.forgetBelow ≤ s.sender.send.next
  reach : ∀ f ∈ s.wire, ∀ a, s.attempts[f.2.deliverySeq]? = some a → f.1 ∈ a.receivers
  floor : ∀ f ∈ s.wire, ∀ (seq : Nat) (a : Attempts), s.OpenUnacked seq → s.attempts[seq]? = some a →
    f.1 ∈ a.receivers → f.2.forgetBelow ≤ seq
  below : ∀ (r : PublicKey), ((s.receivers r).windowOf s.sender.me).below = 0 ∨
    ∃ f ∈ s.wire, f.1 = r ∧ ((s.receivers r).windowOf s.sender.me).below = f.2.forgetBelow

section NetOk

variable {s : Net}

theorem NetOk.kept (h : NetOk s) {d : Delivery} (hk : s.sender.Keeps d) : NetOk { s with sender := d } := by
  have hopen : ∀ seq, ({ s with sender := d } : Net).OpenUnacked seq → s.OpenUnacked seq := by
    intro seq hseq
    refine hk.calls _ ?_
    rw [← hk.me]
    exact hseq
  have hnext := hk.next
  refine ⟨fun seq a ha => ?_, fun seq hs => h.calls seq (hopen seq hs), fun f hf => ?_, h.reach,
    fun f hf seq a hs => h.floor f hf seq a (hopen seq hs), ?_⟩
  · obtain ⟨hid, hfloor, hlt⟩ := h.attempts seq a ha
    exact ⟨by rw [hid, hk.me], hfloor, Nat.lt_of_lt_of_le hlt hnext⟩
  · obtain ⟨hme, hlt, hle⟩ := h.wire f hf
    exact ⟨by rw [hme, hk.me], Nat.lt_of_lt_of_le hlt hnext, Nat.le_trans hle hnext⟩
  · rw [hk.me]
    exact h.below

theorem NetOk.opened (h : NetOk s) (receivers : List PublicKey) (primary : Bool)
    (birth : Option String) (maxReply : Nat) (unary : Bool) :
    NetOk (s.opened receivers primary birth maxReply unary) := by
  have hopen : ∀ seq, (s.opened receivers primary birth maxReply unary).OpenUnacked seq →
      seq = s.sender.send.next ∨ s.OpenUnacked seq := fun seq => openUnacked_opened
  have hget : ∀ seq : Nat, (s.opened receivers primary birth maxReply unary).attempts[seq]? =
      if s.sender.send.next = seq then
        some ⟨primary, birth, ⟨s.sender.me, s.sender.send.next⟩, receivers, none⟩
      else s.attempts[seq]? := fun seq => getElem?_insert_eq _ _ _ _
  have hnext : (s.opened receivers primary birth maxReply unary).sender.send.next =
    s.sender.send.next + 1 := rfl
  refine ⟨fun seq a ha => ?_, fun seq hs => ?_, fun f hf => ?_, fun f hf a ha => ?_,
    fun f hf seq a hs ha hr => ?_, h.below⟩
  · rw [hget] at ha
    split at ha
    next he =>
      cases ha
      refine ⟨by rw [he]; rfl, rfl, ?_⟩
      omega
    next =>
      obtain ⟨hid, hfloor, hlt⟩ := h.attempts seq a ha
      exact ⟨hid, hfloor, by omega⟩
  · rw [mem_iff_getElem?, hget]
    rcases hopen seq hs with rfl | hs
    · exact ⟨_, if_pos rfl⟩
    · obtain ⟨a, ha⟩ := (mem_iff_getElem? _ _).mp (h.calls seq hs)
      have hlt := (h.attempts seq a ha).2.2
      exact ⟨a, by rw [if_neg (by omega), ha]⟩
  · obtain ⟨hme, hlt, hle⟩ := h.wire f hf
    exact ⟨hme, by omega, by omega⟩
  · have hlt := (h.wire f hf).2.1
    rw [hget, if_neg (by omega)] at ha
    exact h.reach f hf a ha
  · rcases hopen seq hs with rfl | hs
    · exact (h.wire f hf).2.2
    · obtain ⟨b, hb⟩ := (mem_iff_getElem? _ _).mp (h.calls seq hs)
      have hlt := (h.attempts seq b hb).2.2
      rw [hget, if_neg (by omega)] at ha
      exact h.floor f hf seq a hs ha hr

theorem NetOk.put (h : NetOk s) {toward : PublicKey} {header : RequestHeader}
    (hme : header.sender = s.sender.me) (hlt : header.deliverySeq < s.sender.send.next)
    (hle : header.forgetBelow ≤ s.sender.send.next)
    (hreach : ∀ a, s.attempts[header.deliverySeq]? = some a → toward ∈ a.receivers)
    (hfloor : ∀ (seq : Nat) (a : Attempts), s.OpenUnacked seq → s.attempts[seq]? = some a →
      toward ∈ a.receivers → header.forgetBelow ≤ seq) : NetOk (s.put toward header) := by
  have hmem : ∀ f ∈ (s.put toward header).wire, f ∈ s.wire ∨ f = (toward, header) := by
    intro f hf
    simpa [Net.put] using hf
  refine ⟨h.attempts, h.calls, fun f hf => ?_, fun f hf a ha => ?_, fun f hf seq a hs ha hr => ?_,
    fun r => ?_⟩
  · rcases hmem f hf with hf | rfl
    · exact h.wire f hf
    · exact ⟨hme, hlt, hle⟩
  · rcases hmem f hf with hf | rfl
    · exact h.reach f hf a ha
    · exact hreach a ha
  · rcases hmem f hf with hf | rfl
    · exact h.floor f hf seq a hs ha hr
    · exact hfloor seq a hs ha hr
  · rcases h.below r with hzero | ⟨f, hf, hr, hbelow⟩
    · exact Or.inl hzero
    · exact Or.inr ⟨f, List.mem_append_left _ hf, hr, hbelow⟩

theorem NetOk.attempt (h : NetOk s) {seq : Nat} {toward : PublicKey} {a : Attempts}
    (ha : s.attempts[seq]? = some a) (hr : toward ∈ a.receivers) (hok : s.StepOk (.attempt seq toward)) :
    NetOk (s.put toward (a.header s.sender)) := by
  obtain ⟨hid, hcarried, hlt⟩ := h.attempts seq a ha
  have hseq : a.id.deliverySeq = seq := by rw [hid]
  have hbelow : a.lowestUnacked s.sender = min (s.sender.lowestUnacked a.receivers) seq := by
    simp only [Attempts.lowestUnacked, hcarried, hseq]
  have hheader : (a.header s.sender).forgetBelow = a.lowestUnacked s.sender := rfl
  have hpast : ∀ r ∈ a.receivers, ∀ j, Holds s.sender.send.unacked r j →
      a.lowestUnacked s.sender ≤ j := by
    intro r hr j hj
    have hlow := SendWindow.lowestUnacked_le hj
    have hmin := Delivery.lowestUnacked_le (d := s.sender) hr
    omega
  refine h.put (by rw [Attempts.header, hid]) (by rw [Attempts.header, hseq]; exact hlt) ?_ ?_ ?_
  · rw [hheader, hbelow]
    omega
  · intro b hb
    rw [Attempts.header, hseq, ha] at hb
    cases hb
    exact hr
  · intro k b hk hb hrb
    rw [hheader]
    by_cases hholds : Holds s.sender.send.unacked toward k
    · exact hpast toward hr k hholds
    · rcases hok a ha k ⟨hk, ⟨b, hb, hrb⟩, hholds⟩ with hle | ⟨r, hr, j, hj, hholds⟩
      · omega
      · exact Nat.le_trans (hpast r hr j hholds) hj

theorem NetOk.carried (h : NetOk s) {carrier : PublicKey} (hok : s.StepOk (.carry carrier)) :
    NetOk (s.carried carrier) := by
  have hkept := h.kept (s.sender.keeps_mint [carrier])
  have hpast : ∀ j, Holds s.sender.send.unacked carrier j →
      (s.sender.mint [carrier]).1.lowestUnacked [carrier] ≤ j := by
    intro j hj
    have hheld : Holds (s.sender.mint [carrier]).1.send.unacked carrier j :=
      (holds_hold _ _ _ _ _).mpr (Or.inl hj)
    have hlow := SendWindow.lowestUnacked_le hheld
    have hmin := Delivery.lowestUnacked_le (d := (s.sender.mint [carrier]).1) (List.mem_singleton_self carrier)
    omega
  refine hkept.put rfl (Nat.lt_succ_self _) ?_ ?_ ?_
  · have hmin := Delivery.lowestUnacked_le (d := (s.sender.mint [carrier]).1) (List.mem_singleton_self carrier)
    exact Nat.le_trans hmin (SendWindow.lowestUnacked_le_next _ _)
  · intro a ha
    exact absurd (h.attempts _ a ha).2.2 (Nat.lt_irrefl _)
  · intro k b hk hb hrb
    have hk : s.OpenUnacked k := hk
    by_cases hholds : Holds s.sender.send.unacked carrier k
    · exact hpast k hholds
    · obtain ⟨j, hj, hholds⟩ := hok k ⟨hk, ⟨b, hb, hrb⟩, hholds⟩
      exact Nat.le_trans (hpast j hholds) hj

theorem NetOk.born (h : NetOk s) {seq : Nat} {a : Attempts} {node : ResolvedNode}
    (ha : s.attempts[seq]? = some a) (hok : s.StepOk (.nextBirth seq node)) :
    NetOk { s with attempts := s.attempts.insert seq (a.nextBirth node).1 } := by
  obtain ⟨hid, hcarried, hkeep, hgrow⟩ := a.nextBirth_spec node
  refine ⟨fun k b hb => ?_, fun k hk => ?_, h.wire, fun f hf b hb => ?_, fun f hf k b hk hb hr => ?_,
    h.below⟩
  · rw [getElem?_insert_eq] at hb
    split at hb
    next he =>
      cases hb
      subst he
      rw [hid, hcarried]
      exact h.attempts seq a ha
    next => exact h.attempts k b hb
  · rw [ExtTreeMap.mem_insert]
    exact Or.inr (h.calls k hk)
  · rw [getElem?_insert_eq] at hb
    split at hb
    next he =>
      cases hb
      rw [he] at ha
      exact hkeep _ (h.reach f hf a ha)
    next => exact h.reach f hf b hb
  · rw [getElem?_insert_eq] at hb
    split at hb
    next he =>
      cases hb
      subst he
      rcases hgrow _ hr with hr | ⟨hr, hp, hbirth, hn⟩
      · exact h.floor f hf seq a hk ha hr
      · exact hok hk a ha hp hbirth hn f hf hr
    next => exact h.floor f hf k b hk hb hr

theorem NetOk.receive (h : NetOk s) {r : PublicKey} {d : Delivery}
    (hb : (d.windowOf s.sender.me).below = 0 ∨
      ∃ f ∈ s.wire, f.1 = r ∧ (d.windowOf s.sender.me).below = f.2.forgetBelow) :
    NetOk (s.receive r d) := by
  refine ⟨h.attempts, h.calls, h.wire, h.reach, h.floor, fun x => ?_⟩
  by_cases hx : x = r
  · subst hx
    simp only [Net.receive, Function.update_self]
    exact hb
  · simp only [Net.receive, Function.update_of_ne hx]
    exact h.below x

theorem NetOk.arrive (h : NetOk s) {toward : PublicKey} {header : RequestHeader}
    (hw : (toward, header) ∈ s.wire) :
    NetOk (s.receive toward ((s.receivers toward).arriveRequest header).1) := by
  obtain ⟨w, hrecv, hbelow, _⟩ := (s.receivers toward).arriveRequest_spec header
  have hme : header.sender = s.sender.me := (h.wire _ hw).1
  rw [hme] at hrecv hbelow
  have hwindow : ((s.receivers toward).arriveRequest header).1.windowOf s.sender.me = w := by
    rw [Delivery.windowOf, hrecv]
    rfl
  refine h.receive ?_
  rw [hwindow, hbelow]
  rcases Nat.le_total header.forgetBelow ((s.receivers toward).windowOf s.sender.me).below with hle | hle
  · rw [Nat.max_eq_left hle]
    exact h.below toward
  · rw [Nat.max_eq_right hle]
    exact Or.inr ⟨_, hw, rfl, rfl⟩

theorem NetOk.settle (h : NetOk s) (r : PublicKey) (id : DeliveryId) (how : Settled) :
    NetOk (s.receive r ((s.receivers r).settleRequest id how).1) := by
  refine h.receive ?_
  cases hrecv : ((s.receivers r).settleRequest id how).1.recv[s.sender.me]? with
  | none =>
    refine Or.inl ?_
    rw [Delivery.windowOf, hrecv]
    rfl
  | some w =>
    obtain ⟨w₀, hold, hbelow, _⟩ := (s.receivers r).settleRequest_spec id how s.sender.me w hrecv
    have hb := h.below r
    rw [Delivery.windowOf, hold] at hb
    rw [Delivery.windowOf, hrecv]
    simp only [Option.getD_some, hbelow] at hb ⊢
    exact hb

/-- One step that meets its condition keeps the invariant. -/
theorem NetOk.step (h : NetOk s) {act : Act} (hok : s.StepOk act) : NetOk (s.step act).1 := by
  cases act with
  | call receivers primary birth maxReply unary => exact h.opened receivers primary birth maxReply unary
  | nextBirth seq node =>
    cases ha : s.attempts[seq]? with
    | none =>
      simp only [Net.step, ha]
      exact h
    | some a =>
      simp only [Net.step, ha]
      exact h.born ha hok
  | attempt seq toward =>
    cases ha : s.attempts[seq]? with
    | none =>
      simp only [Net.step, ha]
      exact h
    | some a =>
      by_cases hr : toward ∈ a.receivers
      · simp only [Net.step, ha, if_pos hr]
        exact h.attempt ha hr hok
      · simp only [Net.step, ha, if_neg hr]
        exact h
  | carry carrier => exact h.carried hok
  | oweResponse id replyTo => exact h.kept (s.sender.keeps_oweResponse id replyTo)
  | oweFrame id seq body terminal => exact h.kept (s.sender.keeps_oweFrame id seq body terminal)
  | arrive toward header =>
    by_cases hw : (toward, header) ∈ s.wire
    · simp only [Net.step, if_pos hw]
      exact h.arrive hw
    · simp only [Net.step, if_neg hw]
      exact h
  | settle r id how => exact h.settle r id how
  | ack id => exact h.kept (s.sender.keeps_onAck id)
  | complete id => exact h.kept (s.sender.keeps_endCall id)

end NetOk

theorem step_me (s : Net) (act : Act) : (s.step act).1.sender.me = s.sender.me := by
  cases act with
  | call => rfl
  | nextBirth seq node => simp only [Net.step]; split <;> rfl
  | attempt seq toward =>
    simp only [Net.step]
    split
    next => split <;> rfl
    next => rfl
  | carry => rfl
  | oweResponse => rfl
  | oweFrame id seq body terminal => exact (s.sender.keeps_oweFrame id seq body terminal).me
  | arrive => simp only [Net.step]; split <;> rfl
  | settle => rfl
  | ack id => exact (s.sender.keeps_onAck id).me
  | complete id => exact (s.sender.keeps_endCall id).me

/-- The request is held as accepted at `r`. -/
def HeldAccepted (s : Net) (r : PublicKey) (seq : Nat) : Prop :=
  ((s.receivers r).windowOf s.sender.me).held[seq]? = some .accepted

theorem heldAccepted_receive {s : Net} {x r : PublicKey} {d : Delivery} {seq : Nat}
    (h : (s.receive x d).HeldAccepted r seq) :
    (r = x ∧ (d.windowOf s.sender.me).held[seq]? = some .accepted) ∨ s.HeldAccepted r seq := by
  by_cases hr : r = x
  · subst hr
    simp only [HeldAccepted, Net.receive, Function.update_self] at h
    exact Or.inl ⟨rfl, h⟩
  · simp only [HeldAccepted, Net.receive, Function.update_of_ne hr] at h
    exact Or.inr h

/-- One step accepts nothing but the request it settles. -/
theorem heldAccepted_step {s : Net} (hs : NetOk s) {act : Act} {r : PublicKey} {seq : Nat}
    (h : (s.step act).1.HeldAccepted r seq) : s.HeldAccepted r seq ∨
      (act = .settle r ⟨s.sender.me, seq⟩ .accepted ∧ ∃ w seen,
        (s.receivers r).recv[s.sender.me]? = some w ∧ w.held[seq]? = some seen) := by
  have hsame : (s.step act).1.receivers = s.receivers → s.HeldAccepted r seq := by
    intro hr
    rw [HeldAccepted, hr, step_me] at h
    exact h
  cases act with
  | call => exact Or.inl (hsame rfl)
  | nextBirth seq node => exact Or.inl (hsame (by simp only [Net.step]; split <;> rfl))
  | attempt seq toward =>
    refine Or.inl (hsame ?_)
    simp only [Net.step]
    split
    next => split <;> rfl
    next => rfl
  | carry => exact Or.inl (hsame rfl)
  | oweResponse => exact Or.inl (hsame rfl)
  | oweFrame => exact Or.inl (hsame rfl)
  | ack => exact Or.inl (hsame rfl)
  | complete => exact Or.inl (hsame rfl)
  | arrive toward header =>
    by_cases hw : (toward, header) ∈ s.wire
    · simp only [Net.step, if_pos hw] at h
      rcases heldAccepted_receive h with ⟨rfl, hacc⟩ | hacc
      · obtain ⟨w, hrecv, _, hheld, _⟩ := (s.receivers r).arriveRequest_spec header
        have hme : header.sender = s.sender.me := (hs.wire _ hw).1
        rw [hme] at hrecv hheld
        rw [Delivery.windowOf, hrecv] at hacc
        exact Or.inl (hheld seq hacc)
      · exact Or.inl hacc
    · exact Or.inl (hsame (by simp only [Net.step, if_neg hw]))
  | settle x id how =>
    rcases heldAccepted_receive h with ⟨rfl, hacc⟩ | hacc
    · cases hrecv : ((s.receivers r).settleRequest id how).1.recv[s.sender.me]? with
      | none =>
        rw [Delivery.windowOf, hrecv] at hacc
        simp [RecvWindow.new] at hacc
      | some w =>
        obtain ⟨w₀, hold, _, hheld⟩ := (s.receivers r).settleRequest_spec id how s.sender.me w hrecv
        rw [Delivery.windowOf, hrecv] at hacc
        rcases hheld seq hacc with hacc | ⟨rfl, rfl, seen, hseen⟩
        · refine Or.inl ?_
          rw [HeldAccepted, Delivery.windowOf, hold]
          exact hacc
        · exact Or.inr ⟨rfl, w₀, seen, hold, hseen⟩
    · exact Or.inl hacc

/-- Every step of the run meets its condition, in the state it is taken in. -/
def RunOk (start : Net) (acts : List Act) : Prop :=
  ∀ before act after, acts = before ++ act :: after → (start.run before).StepOk act

theorem RunOk.upTo {start : Net} {acts before after : List Act} {act : Act} (h : RunOk start acts)
    (he : acts = before ++ act :: after) : RunOk start before := by
  intro b x a hb
  refine h b x (a ++ act :: after) ?_
  rw [he, hb]
  simp

theorem NetOk.start (me : Birth) (births : PublicKey → Birth) : NetOk (start me births) := by
  refine ⟨fun seq a ha => ?_, fun seq hs => ?_, by simp [Net.start], by simp [Net.start],
    by simp [Net.start], fun r => Or.inl ?_⟩
  · simp [Net.start] at ha
  · obtain ⟨slot, hslot, _⟩ := hs
    simp [Net.start, Delivery.new] at hslot
  · simp [Net.start, Delivery.new, Delivery.windowOf, RecvWindow.new]

theorem SettledAccepted.concat {start : Net} {acts : List Act} {r : PublicKey} {id : DeliveryId}
    (h : SettledAccepted start acts r id) (act : Act) : SettledAccepted start (acts ++ [act]) r id := by
  obtain ⟨before, after, w, seen, he, hw⟩ := h
  exact ⟨before, after ++ [act], w, seen, by rw [he]; simp, hw⟩

/-- A whole run keeps the invariant, and what its receivers hold as accepted they settled so. -/
theorem NetOk.run {me : Birth} {births : PublicKey → Birth} {acts : List Act}
    (hok : RunOk (Net.start me births) acts) :
    let s := (Net.start me births).run acts
    NetOk s ∧ s.sender.me = me ∧
      ∀ r seq, s.HeldAccepted r seq → SettledAccepted (Net.start me births) acts r ⟨me, seq⟩ := by
  induction acts using List.reverseRecOn with
  | nil =>
    refine ⟨NetOk.start me births, rfl, fun r seq hacc => ?_⟩
    have hnone : ((Net.start me births).run []).HeldAccepted r seq := hacc
    simp [HeldAccepted, Net.run, Shards.run, Net.start, Delivery.new, Delivery.windowOf,
      RecvWindow.new] at hnone
  | append_singleton acts act ih =>
    obtain ⟨hs, hme, hsettled⟩ := ih (hok.upTo rfl)
    rw [run_concat]
    refine ⟨hs.step (hok acts act [] rfl), ?_, fun r seq hacc => ?_⟩
    · rw [step_me]
      exact hme
    · rcases heldAccepted_step hs hacc with hacc | ⟨rfl, w, seen, hw, hseen⟩
      · exact (hsettled r seq hacc).concat act
      · rw [hme] at hw ⊢
        exact ⟨acts, [], w, seen, rfl, hw, hseen⟩

theorem RunOk.nil (s : Net) : RunOk s [] := by
  intro before act after he
  simp at he

theorem RunOk.cons {s : Net} {act : Act} {acts : List Act} (h : s.StepOk act)
    (hrest : RunOk (s.step act).1 acts) : RunOk s (act :: acts) := by
  intro before x after he
  cases before with
  | nil =>
    obtain ⟨rfl, _⟩ := List.cons.inj he
    exact h
  | cons b before =>
    obtain ⟨hb, htail⟩ := List.cons.inj he
    subst hb
    exact hrest before x after htail

def caller : Birth := ⟨"n1", "i1"⟩

def quiet : Net := start caller fun r => ⟨r, "i0"⟩

/-- A request to `B` of another call, then the primary's call takes `B` on. -/
def passed : List Act :=
  [.call ["A"] true (some "i1") 64 true, .call ["B"] false none 64 true, .attempt 2 "B",
    .arrive "B" ⟨caller, 2, 2⟩, .nextBirth 1 ⟨"B", "i2"⟩, .attempt 1 "B"]

/-- Every open, unacked call is held toward each of its receivers. -/
structure Tracked (s : Net) : Prop where
  minted : ∀ seq, s.OpenUnacked seq → seq < s.sender.send.next ∧
    s.sender.sent[(⟨s.sender.me, seq⟩ : DeliveryId)]? = some .request
  holds : ∀ (seq : Nat) (a : Attempts), s.OpenUnacked seq → s.attempts[seq]? = some a →
    ∀ r ∈ a.receivers, Holds s.sender.send.unacked r seq

theorem Tracked.kept {s t : Net} (h : Tracked s) (hk : s.sender.Keeps t.sender)
    (hattempts : t.attempts = s.attempts) : Tracked t := by
  have hopen : ∀ seq, t.OpenUnacked seq → t.sender.OpenUnacked ⟨s.sender.me, seq⟩ := by
    intro seq hseq
    rw [← hk.me]
    exact hseq
  refine ⟨fun seq hs => ?_, fun seq a hs ha r hr => ?_⟩
  · have hs := hopen seq hs
    obtain ⟨hlt, hsent⟩ := h.minted seq (hk.calls _ hs)
    refine ⟨Nat.lt_of_lt_of_le hlt hk.next, ?_⟩
    rw [hk.me]
    exact hk.sent seq hs hlt hsent
  · have hs := hopen seq hs
    have hold := hk.calls _ hs
    rw [hattempts] at ha
    exact hk.holds seq r hs (h.minted seq hold).2 (h.holds seq a hold ha r hr)

theorem Tracked.opened {s : Net} (h : Tracked s) (receivers : List PublicKey) (primary : Bool)
    (birth : Option String) (maxReply : Nat) (unary : Bool) :
    Tracked (s.opened receivers primary birth maxReply unary) := by
  have hopen : ∀ seq, (s.opened receivers primary birth maxReply unary).OpenUnacked seq →
      seq = s.sender.send.next ∨ s.OpenUnacked seq := fun seq => openUnacked_opened
  have hsent : ∀ seq, (s.opened receivers primary birth maxReply unary).sender.sent[
      (⟨s.sender.me, seq⟩ : DeliveryId)]? = if (⟨s.sender.me, s.sender.send.next⟩ : DeliveryId) =
        ⟨s.sender.me, seq⟩ then some .request else s.sender.sent[(⟨s.sender.me, seq⟩ : DeliveryId)]? :=
    fun seq => getElem?_insert_eq _ _ _ _
  have hnext : (s.opened receivers primary birth maxReply unary).sender.send.next =
    s.sender.send.next + 1 := rfl
  refine ⟨fun seq hs => ?_, fun seq a hs ha r hr => (holds_hold _ _ _ _ _).mpr ?_⟩
  · rcases hopen seq hs with rfl | hs
    · exact ⟨Nat.lt_succ_self _, (hsent _).trans (if_pos rfl)⟩
    · obtain ⟨hlt, hold⟩ := h.minted seq hs
      refine ⟨by omega, (hsent seq).trans ?_⟩
      split
      next => rfl
      next => exact hold
  · have hget : (s.opened receivers primary birth maxReply unary).attempts[seq]? =
      if s.sender.send.next = seq then
        some ⟨primary, birth, ⟨s.sender.me, s.sender.send.next⟩, receivers, none⟩
      else s.attempts[seq]? := getElem?_insert_eq _ _ _ _
    rw [hget] at ha
    rcases hopen seq hs with rfl | hs
    · rw [if_pos rfl] at ha
      cases ha
      exact Or.inr ⟨hr, rfl⟩
    · have hlt := (h.minted seq hs).1
      rw [if_neg (by omega)] at ha
      exact Or.inl (h.holds seq a hs ha r hr)

/-- Only taking on a birth leaves a call untracked. -/
theorem Tracked.step {s : Net} (h : Tracked s) {act : Act} (hact : ∀ seq node, act ≠ .nextBirth seq node) :
    Tracked (s.step act).1 := by
  have hrefl := Delivery.Keeps.refl s.sender
  cases act with
  | call receivers primary birth maxReply unary => exact h.opened receivers primary birth maxReply unary
  | nextBirth seq node => exact absurd rfl (hact seq node)
  | attempt seq toward =>
    simp only [Net.step]
    split
    next =>
      split
      next => exact h.kept hrefl rfl
      next => exact h
    next => exact h
  | carry carrier => exact h.kept (s.sender.keeps_mint [carrier]) rfl
  | oweResponse id replyTo => exact h.kept (s.sender.keeps_oweResponse id replyTo) rfl
  | oweFrame id seq body terminal => exact h.kept (s.sender.keeps_oweFrame id seq body terminal) rfl
  | arrive toward header =>
    simp only [Net.step]
    split
    next => exact h.kept hrefl rfl
    next => exact h
  | settle r id how => exact h.kept hrefl rfl
  | ack id => exact h.kept (s.sender.keeps_onAck id) rfl
  | complete id => exact h.kept (s.sender.keeps_endCall id) rfl

theorem Tracked.stepOk {s : Net} (h : Tracked s) {act : Act}
    (hact : ∀ seq node, act ≠ .nextBirth seq node) : s.StepOk act := by
  have hnone : ∀ k r, ¬ s.TookOn k r := by
    rintro k r ⟨hopen, ⟨a, ha, hr⟩, hnot⟩
    exact hnot (h.holds k a hopen ha r hr)
  cases act with
  | nextBirth seq node => exact absurd rfl (hact seq node)
  | attempt seq toward => exact fun _ _ k hk => absurd hk (hnone k toward)
  | carry carrier => exact fun k hk => absurd hk (hnone k carrier)
  | _ => trivial

/-- A run in which no call takes a birth on meets the condition. -/
theorem runOk_of_no_nextBirth {me : Birth} {births : PublicKey → Birth} {acts : List Act}
    (h : ∀ seq node, Act.nextBirth seq node ∉ acts) : RunOk (start me births) acts := by
  have htracked : ∀ before after, acts = before ++ after → Tracked ((start me births).run before) := by
    intro before
    induction before using List.reverseRecOn with
    | nil =>
      intro _ _
      refine ⟨fun seq hs => ?_, fun seq a hs => ?_⟩
      all_goals
        obtain ⟨slot, hslot, _⟩ := hs
        simp [Net.run, Shards.run, Net.start, Delivery.new] at hslot
    | append_singleton before act ih =>
      intro after he
      rw [run_concat]
      refine (ih (act :: after) (by rw [he]; simp)).step fun seq node hact => ?_
      exact h seq node (by rw [he, hact]; simp)
  intro before act after he
  refine (htracked before (act :: after) he).stepOk fun seq node hact => ?_
  exact h seq node (by rw [he, hact]; simp)

end Net

end DistributedMesh.NodeRpc
