import DistributedMesh.KeyedMaps
import DistributedMesh.StoreCodec

namespace DistributedMesh.NodeRpc

open Std (ExtTreeMap)
open KeyedMaps

def maxReorderPositions : Nat := 64

/-- Why a response frame breaks its invocation's order. -/
inductive OrderViolation where
  | conflict (seq : Nat)
  | tooFarAhead (seq next : Nat)
  | pastLastPosition
deriving DecidableEq

def OrderViolation.text : OrderViolation → String
  | conflict seq => s!"two different response frames at position {seq}"
  | tooFarAhead seq next =>
    s!"response frame at position {seq} is more than {maxReorderPositions} past the next expected {next}"
  | pastLastPosition => s!"a response frame after position {UInt32.size - 1}"

/-- What an admitted response frame does. -/
inductive Admitted where
  | deliver (frames : List (Nat × Nat × Bytes))
  | held
  | duplicate
deriving DecidableEq

/-- The order of one invocation's response frames at the caller: `delivered` is the identity of each
position handed over, and `exhausted` says that the last position was. -/
structure ResponseOrder where
  next : Nat
  exhausted : Bool
  delivered : List Nat
  held : ExtTreeMap Nat (Nat × Bytes)
  counted : delivered.length = if exhausted then next + 1 else next

namespace ResponseOrder

def new : ResponseOrder := ⟨0, false, [], ∅, rfl⟩

def deliver (o : ResponseOrder) (deliverySeq : Nat) (h : o.exhausted = false) : ResponseOrder :=
  if o.next + 1 < UInt32.size then
    { o with
      delivered := o.delivered ++ [deliverySeq]
      next := o.next + 1
      counted := by simp [o.counted, h] }
  else
    { o with
      delivered := o.delivered ++ [deliverySeq]
      exhausted := true
      counted := by simp [o.counted, h] }

/-- Hand over the frames held from the next position on. Each one leaves `held`, so that its size
bounds their number. -/
def release : Nat → ResponseOrder → ResponseOrder × List (Nat × Nat × Bytes)
  | 0, o => (o, [])
  | fuel + 1, o =>
    if h : o.exhausted = false then
      match o.held[o.next]? with
      | none => (o, [])
      | some (d, b) =>
        let rest := release fuel ({ o with held := o.held.erase o.next }.deliver d h)
        (rest.1, (o.next, d, b) :: rest.2)
    else (o, [])

/-- Admit the frame at `seq`, whose delivery identity's sequence is `deliverySeq`. -/
def admitFrame (o : ResponseOrder) (seq deliverySeq : Nat) (bytes : Bytes) :
    ResponseOrder × Except OrderViolation Admitted :=
  match o.delivered[seq]? with
  | some had => (o, if had = deliverySeq then .ok .duplicate else .error (.conflict seq))
  | none =>
    if h : o.exhausted = false then
      match o.held[seq]? with
      | some (had, _) => (o, if had = deliverySeq then .ok .duplicate else .error (.conflict seq))
      | none =>
        if seq ≠ o.next then
          if seq - o.next > maxReorderPositions then (o, .error (.tooFarAhead seq o.next))
          else ({ o with held := o.held.insert seq (deliverySeq, bytes) }, .ok .held)
        else
          let out := (o.deliver deliverySeq h).release o.held.size
          (out.1, .ok (.deliver ((seq, deliverySeq, bytes) :: out.2)))
    else (o, .error .pastLastPosition)

section Deliver

variable (o : ResponseOrder) (deliverySeq : Nat) (h : o.exhausted = false)

@[simp] theorem deliver_delivered :
    (o.deliver deliverySeq h).delivered = o.delivered ++ [deliverySeq] := by
  unfold deliver
  split <;> rfl

@[simp] theorem deliver_held : (o.deliver deliverySeq h).held = o.held := by
  unfold deliver
  split <;> rfl

/-- The next position moves on, unless the last one was delivered. -/
theorem deliver_next : (o.deliver deliverySeq h).exhausted = true ∨
    (o.deliver deliverySeq h).next = o.next + 1 := by
  unfold deliver
  split
  next => exact Or.inr rfl
  next => exact Or.inl rfl

end Deliver

theorem release_exhausted {o : ResponseOrder} (h : o.exhausted = true) (fuel : Nat) :
    release fuel o = (o, []) := by
  cases fuel with
  | zero => rfl
  | succ fuel => simp [release, h]

theorem release_some {o : ResponseOrder} (h : o.exhausted = false) {d : Nat} {b : Bytes}
    (hn : o.held[o.next]? = some (d, b)) (fuel : Nat) :
    let rest := release fuel ({ o with held := o.held.erase o.next }.deliver d h)
    release (fuel + 1) o = (rest.1, (o.next, d, b) :: rest.2) := by
  rw [release, dif_pos h]
  simp only [hn]

/-- The frames `release` hands over stand at consecutive positions from the next one on, as they
were held. -/
structure Released (o : ResponseOrder) (out : ResponseOrder × List (Nat × Nat × Bytes)) : Prop where
  delivered : out.1.delivered = o.delivered ++ out.2.map fun f => f.2.1
  frames : ∀ (i : Nat) (f : Nat × Nat × Bytes), out.2[i]? = some f →
    f.1 = o.next + i ∧ o.held[f.1]? = some f.2
  held : ∀ p : Nat, out.1.held[p]? =
    if o.next ≤ p ∧ p < o.next + out.2.length then none else o.held[p]?

theorem Released.none (o : ResponseOrder) : Released o (o, []) := by
  refine ⟨by simp, by simp, fun p => ?_⟩
  rw [if_neg]
  simp only [List.length_nil]
  omega

theorem released_release (fuel : Nat) (o : ResponseOrder) : Released o (release fuel o) := by
  induction fuel generalizing o with
  | zero => exact Released.none o
  | succ fuel ih =>
    by_cases h : o.exhausted = false
    · cases hn : o.held[o.next]? with
      | none =>
        rw [release, dif_pos h]
        simp only [hn]
        exact Released.none o
      | some frame =>
        obtain ⟨d, b⟩ := frame
        have hrest := ih ({ o with held := o.held.erase o.next }.deliver d h)
        have hnext := deliver_next { o with held := o.held.erase o.next } d h
        rw [release_some h hn]
        generalize hq : ({ o with held := o.held.erase o.next } : ResponseOrder).deliver d h = q at *
        have hdelivered : q.delivered = o.delivered ++ [d] := by rw [← hq, deliver_delivered]
        have hheld : ∀ p : Nat, q.held[p]? = if o.next = p then none else o.held[p]? := by
          intro p
          rw [← hq, deliver_held, getElem?_erase_eq]
        rcases hnext with hex | hnext
        · simp only [release_exhausted hex]
          refine ⟨by simp [hdelivered], fun i f hf => ?_, fun p => ?_⟩
          · cases i with
            | zero =>
              cases hf
              exact ⟨rfl, hn⟩
            | succ i => simp at hf
          · rw [hheld]
            by_cases hp : o.next = p
            · subst hp
              simp
            · have hout : ¬ (o.next ≤ p ∧ p < o.next + [(o.next, d, b)].length) := by
                simp only [List.length_singleton]
                omega
              rw [if_neg hp, if_neg hout]
        · have hnext : q.next = o.next + 1 := hnext
          refine ⟨by simp [hrest.delivered, hdelivered], fun i f hf => ?_, fun p => ?_⟩
          · cases i with
            | zero =>
              cases hf
              exact ⟨rfl, hn⟩
            | succ i =>
              obtain ⟨hpos, hwas⟩ := hrest.frames i f (by simpa using hf)
              rw [hheld, if_neg (by omega)] at hwas
              exact ⟨by omega, hwas⟩
          · rw [hrest.held, hheld, hnext, List.length_cons]
            by_cases hp : o.next = p
            · subst hp
              simp
            · rw [if_neg hp]
              exact if_congr (by omega) rfl rfl
    · rw [release, dif_neg h]
      exact Released.none o

/-- With the held frames counted, `release` stops only where the code's loop does. -/
theorem release_stops (fuel : Nat) (o : ResponseOrder) (hf : o.held.size ≤ fuel) :
    (release fuel o).1.exhausted = true ∨
      (release fuel o).1.held[(release fuel o).1.next]? = none := by
  induction fuel generalizing o with
  | zero =>
    refine Or.inr ?_
    have hempty : o.held = ∅ := ExtTreeMap.eq_empty_iff_size_eq_zero.mpr (Nat.le_zero.mp hf)
    simp [release, hempty]
  | succ fuel ih =>
    by_cases h : o.exhausted = false
    · cases hn : o.held[o.next]? with
      | none =>
        rw [release, dif_pos h]
        simp only [hn]
        exact Or.inr trivial
      | some frame =>
        obtain ⟨d, b⟩ := frame
        rw [release_some h hn]
        refine ih _ ?_
        rw [deliver_held, ExtTreeMap.size_erase, if_pos (ExtTreeMap.mem_iff_contains.mp (mem_of_lookup hn))]
        omega
    · rw [release, dif_neg h]
      exact Or.inl (by simpa using h)

/-- The frame at `seq` and the frames held behind it were handed over. -/
structure InOrder (o : ResponseOrder) (seq deliverySeq : Nat) (bytes : Bytes) (out : ResponseOrder)
    (frames : List (Nat × Nat × Bytes)) : Prop where
  next : seq = o.next ∧ o.exhausted = false ∧ o.held[seq]? = none
  delivered : out.delivered = o.delivered ++ frames.map fun f => f.2.1
  first : frames[0]? = some (seq, deliverySeq, bytes)
  behind : ∀ (i : Nat) (f : Nat × Nat × Bytes), frames[i + 1]? = some f →
    f.1 = seq + (i + 1) ∧ o.held[f.1]? = some f.2
  held : ∀ (p : Nat) (frame : Nat × Bytes), out.held[p]? = some frame →
    o.held[p]? = some frame ∧ (p < seq ∨ seq + frames.length ≤ p)

theorem inOrder_release {o : ResponseOrder} {seq : Nat} (h : o.exhausted = false) (hn : seq = o.next)
    (hh : o.held[seq]? = none) (deliverySeq : Nat) (bytes : Bytes) (fuel : Nat) :
    InOrder o seq deliverySeq bytes (release fuel (o.deliver deliverySeq h)).1
      ((seq, deliverySeq, bytes) :: (release fuel (o.deliver deliverySeq h)).2) := by
  have hrest := released_release fuel (o.deliver deliverySeq h)
  refine ⟨⟨hn, h, hh⟩, ?_, rfl, fun i f hf => ?_, fun p frame hp => ?_⟩
  · rw [hrest.delivered, deliver_delivered]
    simp
  · have hf : (release fuel (o.deliver deliverySeq h)).2[i]? = some f := by simpa using hf
    rcases deliver_next o deliverySeq h with hex | hnext
    · rw [release_exhausted hex] at hf
      simp at hf
    · obtain ⟨hpos, hwas⟩ := hrest.frames i f hf
      rw [deliver_held] at hwas
      exact ⟨by omega, hwas⟩
  · rw [hrest.held, deliver_held] at hp
    split at hp
    next => simp at hp
    next hout =>
      refine ⟨hp, ?_⟩
      have hne : p ≠ seq := by
        rintro rfl
        rw [hh] at hp
        simp at hp
      rw [List.length_cons]
      rcases deliver_next o deliverySeq h with hex | hnext
      · rw [release_exhausted hex, List.length_nil]
        omega
      · omega

/-- What a frame does to the order, in four cases. -/
inductive Admits (o : ResponseOrder) (seq deliverySeq : Nat) (bytes : Bytes) :
    ResponseOrder × Except OrderViolation Admitted → Prop where
  | again (h : o.delivered[seq]? = some deliverySeq ∨ ∃ b, o.held[seq]? = some (deliverySeq, b)) :
    Admits o seq deliverySeq bytes (o, .ok .duplicate)
  | refused (v : OrderViolation) : Admits o seq deliverySeq bytes (o, .error v)
  | ahead (hd : o.delivered.length ≤ seq) (hh : o.held[seq]? = none) (hn : seq ≠ o.next) :
    Admits o seq deliverySeq bytes
      ({ o with held := o.held.insert seq (deliverySeq, bytes) }, .ok .held)
  | inOrder {out : ResponseOrder} {frames : List (Nat × Nat × Bytes)}
    (h : InOrder o seq deliverySeq bytes out frames) :
    Admits o seq deliverySeq bytes (out, .ok (.deliver frames))

theorem admits (o : ResponseOrder) (seq deliverySeq : Nat) (bytes : Bytes) :
    Admits o seq deliverySeq bytes (o.admitFrame seq deliverySeq bytes) := by
  unfold admitFrame
  cases hd : o.delivered[seq]? with
  | some had =>
    dsimp only
    split
    next he =>
      subst he
      exact .again (Or.inl hd)
    next => exact .refused _
  | none =>
    dsimp only
    have hlen : o.delivered.length ≤ seq := List.getElem?_eq_none_iff.mp hd
    split
    next h =>
      cases hh : o.held[seq]? with
      | some was =>
        obtain ⟨had, b⟩ := was
        dsimp only
        split
        next he =>
          subst he
          exact .again (Or.inr ⟨b, hh⟩)
        next => exact .refused _
      | none =>
        dsimp only
        split
        next hn =>
          split
          next => exact .refused _
          next => exact .ahead hlen hh hn
        next hn => exact .inOrder (inOrder_release h (not_not.mp hn) hh deliverySeq bytes _)
    next => exact .refused _

end ResponseOrder

end DistributedMesh.NodeRpc
