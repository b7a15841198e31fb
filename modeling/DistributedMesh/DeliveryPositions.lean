import DistributedMesh.DeliveryOrder

namespace DistributedMesh.NodeRpc

open Std (ExtTreeMap)
open KeyedMaps

/-- A response frame as it is admitted: its position, its delivery identity's sequence and its bytes. -/
abbrev OrderedFrame := Nat × Nat × Bytes

/-- What every call was answered, oldest first. -/
abbrev OrderLog := List (OrderedFrame × Except OrderViolation Admitted)

namespace ResponseOrder

/-- The calls of one invocation's order, one after another. -/
def admitAll (o : ResponseOrder) : List OrderedFrame → ResponseOrder × OrderLog
  | [] => (o, [])
  | c :: cs =>
    let step := o.admitFrame c.1 c.2.1 c.2.2
    let rest := step.1.admitAll cs
    (rest.1, (c, step.2) :: rest.2)

/-- The frames one answer hands over. -/
def handedBy : Except OrderViolation Admitted → List OrderedFrame
  | .ok (.deliver frames) => frames
  | _ => []

/-- The frames handed over by a run of calls, in order. -/
def handed (log : OrderLog) : List OrderedFrame := log.flatMap fun x => handedBy x.2

def isOk : Except OrderViolation Admitted → Bool
  | .ok _ => true
  | .error _ => false

/-- The first frame admitted at a position. -/
def admittedAt (log : OrderLog) (p : Nat) : Option OrderedFrame :=
  (log.find? fun x => x.1.1 == p && isOk x.2).map Prod.fst

section Steps

variable {o : ResponseOrder} {seq deliverySeq p : Nat} {bytes : Bytes} {frame : Nat × Bytes}

/-- What a call leaves: the order as it was, with one more frame held, or moved on. -/
theorem admitFrame_state (o : ResponseOrder) (seq deliverySeq : Nat) (bytes : Bytes) :
    (o.admitFrame seq deliverySeq bytes).1 = o ∨
    (seq ≠ o.next ∧ o.held[seq]? = none ∧
      (o.admitFrame seq deliverySeq bytes).1 = { o with held := o.held.insert seq (deliverySeq, bytes) }) ∨
    ∃ hopen : o.exhausted = false, (o.admitFrame seq deliverySeq bytes).1
      = ((o.deliver deliverySeq hopen).release o.held.size).1 := by
  unfold admitFrame
  split
  next => exact Or.inl rfl
  next =>
    split
    next hopen =>
      split
      next => exact Or.inl rfl
      next hnone =>
        split
        next hn =>
          split
          next => exact Or.inl rfl
          next => exact Or.inr (Or.inl ⟨hn, hnone, rfl⟩)
        next => exact Or.inr (Or.inr ⟨hopen, rfl⟩)
    next => exact Or.inl rfl

/-- A held frame stays held until its position is handed over. -/
theorem admitFrame_kept (h : o.held[p]? = some frame) :
    (o.admitFrame seq deliverySeq bytes).1.held[p]? = some frame ∨
      p < (o.admitFrame seq deliverySeq bytes).1.delivered.length := by
  obtain heq | ⟨-, hnone, heq⟩ | ⟨hopen, heq⟩ := admitFrame_state o seq deliverySeq bytes
  · rw [heq]
    exact Or.inl h
  · have hne : seq ≠ p := by
      rintro rfl
      rw [h] at hnone
      simp at hnone
    rw [heq]
    simp only [getElem?_insert_eq, if_neg hne]
    exact Or.inl h
  · have hrest := released_release o.held.size (o.deliver deliverySeq hopen)
    have hlength := o.counted
    rw [hopen] at hlength
    simp only [Bool.false_eq_true, if_false] at hlength
    rw [heq, hrest.held, deliver_held]
    split
    next hin =>
      refine Or.inr ?_
      rw [hrest.delivered, deliver_delivered]
      simp only [List.length_append, List.length_map, List.length_singleton]
      rcases deliver_next o deliverySeq hopen with hend | hnext
      · rw [release_exhausted hend, List.length_nil] at hin
        omega
      · omega
    next => exact Or.inl h

/-- The held frame of the next position is never kept back. -/
def Settled (o : ResponseOrder) : Prop := o.exhausted = true ∨ o.held[o.next]? = none

/-- Only the last position ends an order. -/
def EndsLast (o : ResponseOrder) : Prop := o.exhausted = true → UInt32.size ≤ o.delivered.length

theorem settled_admitFrame (h : o.Settled) : (o.admitFrame seq deliverySeq bytes).1.Settled := by
  obtain heq | ⟨hn, -, heq⟩ | ⟨hopen, heq⟩ := admitFrame_state o seq deliverySeq bytes
  · rw [heq]
    exact h
  · rw [heq]
    refine h.imp id fun hnone => ?_
    simp only [getElem?_insert_eq, if_neg hn]
    exact hnone
  · rw [heq]
    exact release_stops _ _ (by rw [deliver_held])

theorem endsLast_deliver (hopen : o.exhausted = false) : (o.deliver deliverySeq hopen).EndsLast := by
  have hlength := o.counted
  rw [hopen] at hlength
  simp only [Bool.false_eq_true, if_false] at hlength
  intro hend
  rw [deliver_delivered, List.length_append, List.length_singleton, hlength]
  unfold deliver at hend
  split at hend
  next => exact absurd (hend.symm.trans hopen) (by decide)
  next hlast => omega

theorem endsLast_release (fuel : Nat) (o : ResponseOrder) (h : o.EndsLast) : (release fuel o).1.EndsLast := by
  induction fuel generalizing o with
  | zero => exact h
  | succ fuel ih =>
    rw [release]
    split
    next hopen =>
      split
      next => exact h
      next => exact ih _ (endsLast_deliver _)
    next => exact h

theorem endsLast_admitFrame (h : o.EndsLast) : (o.admitFrame seq deliverySeq bytes).1.EndsLast := by
  obtain heq | ⟨-, -, heq⟩ | ⟨hopen, heq⟩ := admitFrame_state o seq deliverySeq bytes
  · rw [heq]
    exact h
  · rw [heq]
    exact h
  · rw [heq]
    exact endsLast_release _ _ (endsLast_deliver hopen)

/-- A frame that is neither delivered nor refused for the end stands at the next position or past it. -/
theorem next_le (hd : o.delivered[seq]? = none) (hopen : o.exhausted = false) : o.next ≤ seq := by
  have hlength := o.counted
  rw [hopen] at hlength
  simp only [Bool.false_eq_true, if_false] at hlength
  rw [← hlength]
  exact List.getElem?_eq_none_iff.mp hd

theorem admitFrame_error {v : OrderViolation} (h : (o.admitFrame seq deliverySeq bytes).2 = .error v) :
    (o.admitFrame seq deliverySeq bytes).1 = o := by
  have hcase := admits o seq deliverySeq bytes
  generalize o.admitFrame seq deliverySeq bytes = out at h hcase
  cases hcase with
  | again => simp at h
  | refused => rfl
  | ahead => simp at h
  | inOrder => simp at h

end Steps

section Runs

variable {o : ResponseOrder} {log : OrderLog} {out : List OrderedFrame}

/-- What was handed over and what is held, told from the calls: the positions before the end of `delivered`, each with
the first frame admitted there, and of the rest the first admitted where one was. -/
structure Kept (log : OrderLog) (o : ResponseOrder) (out : List OrderedFrame) : Prop where
  positions : out.map Prod.fst = List.range o.delivered.length
  identities : (out.map fun f => f.2.1) = o.delivered
  handed : ∀ f ∈ out, admittedAt log f.1 = some f
  held : ∀ (p : Nat) (frame : Nat × Bytes), o.held[p]? = some frame →
    o.delivered.length ≤ p ∧ admittedAt log p = some (p, frame)
  rest : ∀ p, o.delivered.length ≤ p → o.held[p]? = none → admittedAt log p = none

theorem kept_new : Kept [] new [] := by
  refine ⟨rfl, rfl, by simp, ?_, fun _ _ _ => rfl⟩
  intro p frame h
  simp [new] at h

theorem admittedAt_append (log : OrderLog) (x : OrderedFrame × Except OrderViolation Admitted) (p : Nat) :
    admittedAt (log ++ [x]) p = (admittedAt log p).or (if x.1.1 = p ∧ isOk x.2 = true then some x.1 else none) := by
  unfold admittedAt
  rw [List.find?_append, Option.map_or, List.find?_singleton]
  congr 1
  by_cases h : x.1.1 = p ∧ isOk x.2 = true
  · simp [h]
  · rw [if_neg h]
    simp only [Option.map_eq_none_iff, ite_eq_right_iff]
    simpa using h

theorem admittedAt_append_refused (log : OrderLog) (c : OrderedFrame) (v : OrderViolation) (p : Nat) :
    admittedAt (log ++ [(c, .error v)]) p = admittedAt log p := by
  rw [admittedAt_append]
  simp [isOk]

theorem admittedAt_append_some {p : Nat} {f : OrderedFrame} (h : admittedAt log p = some f)
    (x : OrderedFrame × Except OrderViolation Admitted) : admittedAt (log ++ [x]) p = some f := by
  rw [admittedAt_append, h, Option.some_or]

/-- A frame admitted where none was before is the first. -/
theorem admittedAt_append_ok (log : OrderLog) (c : OrderedFrame) (a : Admitted) (p : Nat) (h : admittedAt log p = none) :
    admittedAt (log ++ [(c, .ok a)]) p = if c.1 = p then some c else none := by
  rw [admittedAt_append, h, Option.none_or]
  by_cases hp : c.1 = p
  · rw [if_pos ⟨hp, rfl⟩, if_pos hp]
  · rw [if_neg (fun hc => hp hc.1), if_neg hp]

theorem Kept.unchanged (h : Kept log o out) {x : OrderedFrame × Except OrderViolation Admitted}
    (hsame : ∀ p, admittedAt (log ++ [x]) p = admittedAt log p) : Kept (log ++ [x]) o out := by
  refine ⟨h.positions, h.identities, fun f hf => ?_, fun p frame hp => ?_, fun p hp hnone => ?_⟩
  · rw [hsame, h.handed f hf]
  · rw [hsame]
    exact h.held p frame hp
  · rw [hsame, h.rest p hp hnone]

/-- A position that was handed over or is held has its first frame. -/
theorem Kept.admitted (h : Kept log o out) {p : Nat} (hp : p < o.delivered.length ∨ ∃ frame, o.held[p]? = some frame) :
    ∃ f, admittedAt log p = some f := by
  rcases hp with hp | ⟨frame, hframe⟩
  · have hmem : p ∈ out.map Prod.fst := by
      rw [h.positions]
      exact List.mem_range.mpr hp
    obtain ⟨f, hf, rfl⟩ := List.mem_map.mp hmem
    exact ⟨f, h.handed f hf⟩
  · exact ⟨_, (h.held p frame hframe).2⟩

theorem Kept.ahead (h : Kept log o out) {seq deliverySeq : Nat} {bytes : Bytes} (hd : o.delivered.length ≤ seq)
    (hh : o.held[seq]? = none) :
    Kept (log ++ [((seq, deliverySeq, bytes), .ok .held)])
      { o with held := o.held.insert seq (deliverySeq, bytes) } out := by
  have hfirst := h.rest seq hd hh
  refine ⟨h.positions, h.identities, fun f hf => admittedAt_append_some (h.handed f hf) _, fun p frame hp => ?_,
    fun p hp hnone => ?_⟩
  · simp only [getElem?_insert_eq] at hp
    split at hp
    next heq =>
      subst heq
      cases hp
      exact ⟨hd, by rw [admittedAt_append_ok _ _ _ _ hfirst, if_pos rfl]⟩
    next =>
      obtain ⟨hle, hwas⟩ := h.held p frame hp
      exact ⟨hle, admittedAt_append_some hwas _⟩
  · simp only [getElem?_insert_eq] at hnone
    split at hnone
    next => simp at hnone
    next hne => rw [admittedAt_append_ok _ _ _ _ (h.rest p hp hnone), if_neg hne]

theorem InOrder.positions {o out : ResponseOrder} {seq deliverySeq : Nat} {bytes : Bytes} {frames : List OrderedFrame}
    (h : InOrder o seq deliverySeq bytes out frames) : frames.map Prod.fst = (List.range frames.length).map (seq + ·) := by
  apply List.ext_getElem?
  intro i
  simp only [List.getElem?_map]
  rcases Nat.lt_or_ge i frames.length with hi | hi
  · rw [List.getElem?_range hi, List.getElem?_eq_getElem hi]
    have hf : frames[i]? = some frames[i] := List.getElem?_eq_getElem hi
    cases i with
    | zero =>
      rw [h.first] at hf
      simp [← Option.some.inj hf]
    | succ i => simp [(h.behind i _ hf).1]
  · rw [List.getElem?_eq_none hi, List.getElem?_eq_none (by simpa using hi)]
    rfl

theorem Kept.inOrder (h : Kept log o out) {o' : ResponseOrder} {seq deliverySeq : Nat} {bytes : Bytes}
    {frames : List OrderedFrame} (hin : InOrder o seq deliverySeq bytes o' frames)
    (hkept : ∀ (p : Nat) (frame : Nat × Bytes), o.held[p]? = some frame →
      o'.held[p]? = some frame ∨ p < o'.delivered.length) :
    Kept (log ++ [((seq, deliverySeq, bytes), .ok (.deliver frames))]) o' (out ++ frames) := by
  obtain ⟨hseq, hopen, hnone⟩ := hin.next
  have hlength := o.counted
  rw [hopen] at hlength
  simp only [Bool.false_eq_true, if_false] at hlength
  have hlength' : o'.delivered.length = o.delivered.length + frames.length := by
    rw [hin.delivered, List.length_append, List.length_map]
  have hpos : 0 < frames.length := (List.getElem?_eq_some_iff.mp hin.first).1
  have hfirst := h.rest seq (by omega) hnone
  refine ⟨?_, ?_, fun f hf => ?_, fun p frame hp => ?_, fun p hp hp' => ?_⟩
  · rw [List.map_append, h.positions, hin.positions, hlength', List.range_add, hseq, hlength]
  · rw [List.map_append, h.identities, hin.delivered]
  · rcases List.mem_append.mp hf with hf | hf
    · exact admittedAt_append_some (h.handed f hf) _
    · obtain ⟨i, hi⟩ := List.mem_iff_getElem?.mp hf
      cases i with
      | zero =>
        rw [hin.first] at hi
        rw [← Option.some.inj hi, admittedAt_append_ok _ _ _ _ hfirst, if_pos rfl]
      | succ i =>
        have hwas := (hin.behind i f hi).2
        exact admittedAt_append_some (h.held f.1 f.2 hwas).2 _
  · obtain ⟨hwas, hout⟩ := hin.held p frame hp
    obtain ⟨hle, hadmitted⟩ := h.held p frame hwas
    exact ⟨by omega, admittedAt_append_some hadmitted _⟩
  · have hwas : o.held[p]? = none := by
      cases hheld : o.held[p]? with
      | none => rfl
      | some frame =>
        rcases hkept p frame hheld with hk | hk
        · rw [hk] at hp'
          simp at hp'
        · omega
    rw [admittedAt_append_ok _ _ _ _ (h.rest p (by omega) hwas), if_neg (by simp only; omega)]

/-- One call keeps the account. -/
theorem kept_admitFrame (h : Kept log o out) (c : OrderedFrame) :
    Kept (log ++ [(c, (o.admitFrame c.1 c.2.1 c.2.2).2)]) (o.admitFrame c.1 c.2.1 c.2.2).1
      (out ++ handedBy (o.admitFrame c.1 c.2.1 c.2.2).2) := by
  obtain ⟨seq, deliverySeq, bytes⟩ := c
  have hkept : ∀ (p : Nat) (frame : Nat × Bytes), o.held[p]? = some frame →
      (o.admitFrame seq deliverySeq bytes).1.held[p]? = some frame ∨
        p < (o.admitFrame seq deliverySeq bytes).1.delivered.length := fun p frame => admitFrame_kept
  have hcase := admits o seq deliverySeq bytes
  simp only
  generalize o.admitFrame seq deliverySeq bytes = step at hkept hcase
  cases hcase with
  | again hwas =>
    show Kept _ o (out ++ [])
    rw [List.append_nil]
    have hthere : seq < o.delivered.length ∨ ∃ frame, o.held[seq]? = some frame := by
      refine hwas.imp (fun hd => ?_) fun ⟨b, hb⟩ => ⟨_, hb⟩
      exact (List.getElem?_eq_some_iff.mp hd).1
    obtain ⟨f, hf⟩ := h.admitted hthere
    refine h.unchanged fun p => ?_
    rw [admittedAt_append]
    by_cases hp : seq = p
    · rw [← hp, hf, Option.some_or]
    · rw [if_neg (fun hc => hp hc.1), Option.or_none]
  | refused v =>
    show Kept _ o (out ++ [])
    rw [List.append_nil]
    exact h.unchanged (admittedAt_append_refused log _ v)
  | ahead hd hh hn =>
    show Kept _ _ (out ++ [])
    rw [List.append_nil]
    exact h.ahead hd hh
  | inOrder hin => exact h.inOrder hin hkept

theorem kept_admitAll (h : Kept log o out) (cs : List OrderedFrame) :
    Kept (log ++ (o.admitAll cs).2) (o.admitAll cs).1 (out ++ handed (o.admitAll cs).2) := by
  induction cs generalizing log o out with
  | nil => simpa [admitAll, handed] using h
  | cons c cs ih =>
    have hrun := ih (kept_admitFrame h c)
    simpa [admitAll, handed, List.append_assoc] using hrun

end Runs

section Arrivals

variable {o : ResponseOrder} {log : OrderLog} {out : List OrderedFrame} {n : Nat} {calls : List OrderedFrame}

/-- Frames `0..n-1` come in some order, each again as often as it may with its identity, and none more than the reorder
positions past the first one missing. -/
structure Arrives (n : Nat) (calls : List OrderedFrame) : Prop where
  within : ∀ c ∈ calls, c.1 < n
  every : ∀ p < n, ∃ c ∈ calls, c.1 = p
  same : ∀ c ∈ calls, ∀ c' ∈ calls, c.1 = c'.1 → c.2.1 = c'.2.1
  near : ∀ before c after, calls = before ++ c :: after → ∀ m, (∀ p < m, ∃ x ∈ before, x.1 = p) →
    (∀ x ∈ before, x.1 ≠ m) → c.1 ≤ m + maxReorderPositions

/-- The calls so far were all admitted. -/
structure Arrived (before : List OrderedFrame) (log : OrderLog) (o : ResponseOrder) (out : List OrderedFrame) :
    Prop where
  kept : Kept log o out
  settled : o.Settled
  ends : o.EndsLast
  calls : log.map Prod.fst = before
  admitted : ∀ x ∈ log, isOk x.2 = true

theorem arrived_new : Arrived [] [] new [] :=
  ⟨kept_new, Or.inr (by simp [new]), by simp [EndsLast, new], rfl, by simp⟩

theorem mem_of_admittedAt {p : Nat} {f : OrderedFrame} (h : admittedAt log p = some f) :
    f ∈ log.map Prod.fst ∧ f.1 = p := by
  obtain ⟨x, hx, rfl⟩ := Option.map_eq_some_iff.mp h
  have hfound := List.find?_some hx
  simp only [Bool.and_eq_true, beq_iff_eq] at hfound
  exact ⟨List.mem_map_of_mem (List.mem_of_find?_eq_some hx), hfound.1⟩

variable {before : List OrderedFrame}

/-- A position handed over or held is one that came, with the identity it came with. -/
theorem Arrived.came (h : Arrived before log o out) {p d : Nat}
    (hp : o.delivered[p]? = some d ∨ ∃ b, o.held[p]? = some (d, b)) : ∃ c ∈ before, c.1 = p ∧ c.2.1 = d := by
  rcases hp with hp | ⟨b, hb⟩
  · have hid := hp
    rw [← h.kept.identities, List.getElem?_map] at hid
    obtain ⟨f, hf, hd⟩ := Option.map_eq_some_iff.mp hid
    have hpos : (out.map Prod.fst)[p]? = some f.1 := by
      rw [List.getElem?_map, hf]
      rfl
    rw [h.kept.positions, List.getElem?_range (List.getElem?_eq_some_iff.mp hp).1, Option.some.injEq] at hpos
    have hcalled := mem_of_admittedAt (h.kept.handed f (List.mem_of_getElem? hf))
    rw [h.calls] at hcalled
    exact ⟨f, hcalled.1, hpos.symm, hd⟩
  · have hcalled := mem_of_admittedAt (h.kept.held p (d, b) hb).2
    rw [h.calls] at hcalled
    exact ⟨_, hcalled.1, rfl, rfl⟩

/-- What came is handed over or held. -/
theorem Arrived.there (h : Arrived before log o out) {c : OrderedFrame} (hc : c ∈ before) :
    c.1 < o.delivered.length ∨ ∃ frame, o.held[c.1]? = some frame := by
  rw [← h.calls] at hc
  obtain ⟨x, hx, rfl⟩ := List.mem_map.mp hc
  by_contra hno
  rw [not_or, not_exists] at hno
  have hnone := h.kept.rest x.1.1 (by omega) (Option.eq_none_iff_forall_ne_some.mpr hno.2)
  rw [admittedAt, Option.map_eq_none_iff, List.find?_eq_none] at hnone
  exact hnone x hx (by simp [h.admitted x hx])

/-- The next position is the first one missing. -/
theorem Arrived.missing (h : Arrived before log o out) (hopen : o.exhausted = false) :
    (∀ p < o.next, ∃ x ∈ before, x.1 = p) ∧ ∀ x ∈ before, x.1 ≠ o.next := by
  have hlength := o.counted
  rw [hopen] at hlength
  simp only [Bool.false_eq_true, if_false] at hlength
  constructor
  · intro p hp
    obtain ⟨c, hc, hcp, -⟩ := h.came (Or.inl (List.getElem?_eq_getElem (show p < o.delivered.length by omega)))
    exact ⟨c, hc, hcp⟩
  · intro x hx heq
    rcases h.there hx with hlt | ⟨frame, hframe⟩
    · omega
    · rcases h.settled with hend | hnone
      · rw [hopen] at hend
        exact absurd hend (by decide)
      · rw [heq, hnone] at hframe
        simp at hframe

theorem Arrived.step (h : Arrived before log o out) (ha : Arrives n calls) (hn : n ≤ UInt32.size) {c : OrderedFrame}
    {after : List OrderedFrame} (hcalls : calls = before ++ c :: after) :
    Arrived (before ++ [c]) (log ++ [(c, (o.admitFrame c.1 c.2.1 c.2.2).2)]) (o.admitFrame c.1 c.2.1 c.2.2).1
      (out ++ handedBy (o.admitFrame c.1 c.2.1 c.2.2).2) := by
  have hmem : c ∈ calls := by
    rw [hcalls]
    simp
  have hsame : ∀ d, (o.delivered[c.1]? = some d ∨ ∃ b, o.held[c.1]? = some (d, b)) → d = c.2.1 := by
    intro d hd
    obtain ⟨x, hx, hpos, hid⟩ := h.came hd
    rw [← hid]
    exact ha.same x (by rw [hcalls]; simp [hx]) c hmem hpos
  have hok : isOk (o.admitFrame c.1 c.2.1 c.2.2).2 = true := by
    unfold admitFrame
    split
    next had hd => rw [hsame had (Or.inl hd)]; simp [isOk]
    next hd =>
      split
      next hopen =>
        split
        next had b hh => rw [hsame had (Or.inr ⟨b, hh⟩)]; simp [isOk]
        next =>
          split
          next =>
            obtain ⟨hbelow, hnext⟩ := h.missing hopen
            have hnear := ha.near before c after hcalls o.next hbelow hnext
            rw [if_neg (by omega)]
            rfl
          next => rfl
      next hend =>
        -- every position there is was handed over, this one with them
        have hlast := h.ends (by simpa using hend)
        have hlt := ha.within c hmem
        have hout := List.getElem?_eq_none_iff.mp hd
        omega
  refine ⟨kept_admitFrame h.kept c, settled_admitFrame h.settled, endsLast_admitFrame h.ends, ?_, ?_⟩
  · rw [List.map_append, h.calls]
    rfl
  · intro x hx
    rcases List.mem_append.mp hx with hx | hx
    · exact h.admitted x hx
    · rw [List.mem_singleton.mp hx]
      exact hok

theorem Arrived.run (ha : Arrives n calls) (hn : n ≤ UInt32.size) (h : Arrived before log o out)
    {after : List OrderedFrame} (hcalls : calls = before ++ after) :
    Arrived calls (log ++ (o.admitAll after).2) (o.admitAll after).1 (out ++ handed (o.admitAll after).2) := by
  induction after generalizing before log o out with
  | nil =>
    rw [List.append_nil] at hcalls
    subst hcalls
    simpa [admitAll, handed] using h
  | cons c after ih =>
    have hrun := ih (h.step ha hn hcalls) (by rw [hcalls]; simp)
    simpa [admitAll, handed, List.append_assoc] using hrun

theorem Arrived.complete (h : Arrived calls log o out) (ha : Arrives n calls) (hn : n ≤ UInt32.size) :
    o.delivered.length = n := by
  have hle : o.delivered.length ≤ n := by
    by_contra hlt
    obtain ⟨c, hc, hcn, -⟩ := h.came (Or.inl (List.getElem?_eq_getElem (show n < o.delivered.length by omega)))
    have hwithin := ha.within c hc
    omega
  have hge : n ≤ o.delivered.length := by
    cases hopen : o.exhausted with
    | true =>
      have hlast := h.ends hopen
      omega
    | false =>
      have hlength := o.counted
      rw [hopen] at hlength
      simp only [Bool.false_eq_true, if_false] at hlength
      by_contra hlt
      obtain ⟨c, hc, hcn⟩ := ha.every o.next (by omega)
      exact (h.missing hopen).2 c hc hcn
  omega

end Arrivals

/-- The order of an invocation's responses: what is handed over is the positions in turn, each with the first frame
admitted there; no position before the next one reaches the subtraction; a refusal changes nothing; and frames that
come near enough are all handed over. -/
theorem response_order (calls : List OrderedFrame) :
    (handed (new.admitAll calls).2).map Prod.fst = List.range (handed (new.admitAll calls).2).length ∧
    (∀ f ∈ handed (new.admitAll calls).2, admittedAt (new.admitAll calls).2 f.1 = some f) ∧
    (∀ seq, (new.admitAll calls).1.delivered[seq]? = none → (new.admitAll calls).1.exhausted = false →
      (new.admitAll calls).1.next ≤ seq) ∧
    (∀ seq deliverySeq bytes v, ((new.admitAll calls).1.admitFrame seq deliverySeq bytes).2 = .error v →
      ((new.admitAll calls).1.admitFrame seq deliverySeq bytes).1 = (new.admitAll calls).1) ∧
    ∀ n ≤ UInt32.size, Arrives n calls → (handed (new.admitAll calls).2).map Prod.fst = List.range n := by
  have hkept := kept_admitAll kept_new calls
  simp only [List.nil_append] at hkept
  have hcount : (handed (new.admitAll calls).2).length = (new.admitAll calls).1.delivered.length := by
    rw [← hkept.identities, List.length_map]
  refine ⟨?_, hkept.handed, fun seq => next_le, fun seq deliverySeq bytes v => admitFrame_error, fun n hn ha => ?_⟩
  · rw [hcount, hkept.positions]
  · have hall := Arrived.run ha hn arrived_new rfl
    rw [hkept.positions, hall.complete ha hn]

/-- A later frame first, and one of them twice. -/
def mixedFrames : List OrderedFrame := [(1, 7, [1]), (0, 5, [0]), (1, 7, [9]), (2, 8, [])]

theorem mixedFrames_arrive : Arrives 3 mixedFrames := by
  refine ⟨by decide, by decide, by decide, fun before c after hcalls m _ _ => ?_⟩
  have hmem : c ∈ mixedFrames := by
    rw [hcalls]
    simp
  have hwithin : ∀ c ∈ mixedFrames, c.1 < 3 := by decide
  have hlt := hwithin c hmem
  have hbound : maxReorderPositions = 64 := rfl
  omega

theorem mixedFrames_handed :
    Arrives 3 mixedFrames ∧ (handed (new.admitAll mixedFrames).2).map Prod.fst = [0, 1, 2] := by
  refine ⟨mixedFrames_arrive, ?_⟩
  obtain ⟨-, -, -, -, hall⟩ := response_order mixedFrames
  exact hall 3 (by decide) mixedFrames_arrive

end ResponseOrder

end DistributedMesh.NodeRpc
