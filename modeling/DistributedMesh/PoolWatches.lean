import DistributedMesh.PoolDials

namespace DistributedMesh.Pooling

open GuardedRuns KeyedMaps Pool

/-- The connection whose opening the dial is to report. -/
def Dial.reporting (d : Dial) : Option (PoolKey × Nat) :=
  match d.stage with
  | .pooled c => if d.spec.hooks then some (d.key, c) else none
  | _ => none

def Call.reporting (c : Call) : Option (PoolKey × Nat) :=
  match c.stage with
  | .found conn => some (c.key, conn)
  | _ => none

/-- The connections reported open, or about to be, with their keys. -/
def Pool.reporters (s : Pool) : List (PoolKey × Nat) :=
  s.tasks.filterMap Dial.reporting ++ s.calls.filterMap Call.reporting ++ s.watches.map fun w => (w.key, w.conn)

/-- The step, no watch's, takes what is pooled under the key out of the pool. -/
def displaces (s : Pool) (m : Move) (k : PoolKey) : Bool :=
  match m with
  | .looks j =>
    match s.calls[j]? with
    | some ⟨key, _, .looking⟩ => key == k && !s.live k
    | _ => false
  | .pools i =>
    match s.tasks[i]? with
    | some ⟨key, _, _, .current _⟩ => key == k
    | _ => false
  | .empties j =>
    match s.closes[j]? with
    | some ⟨c, _, .cancelled⟩ => c.covers k
    | _ => false
  | .purges node => k.peer == node.endpointId && k.incarnation != some node.incarnation
  | .breaks key c => key == k && s.holds k c
  | _ => false

/-- A connection reported open that closed is taken out of the pool by its watch alone. -/
def leavesWatched (s : Pool) (m : Move) : Bool :=
  s.reporters.all fun r => !(s.holds r.1 r.2 && s.closed r.2 && displaces s m r.1)

/-- A connection reported open is pooled under its key alone, and after its watch fired nowhere. -/
structure Watched (s : Pool) : Prop where
  fresh : ∀ k p, s.conns.lookup k = some p → p.conn < s.next
  single : ∀ k k' p p', s.conns.lookup k = some p → s.conns.lookup k' = some p' → p.conn = p'.conn → k = k'
  birthless : ∀ k p, s.conns.lookup k = some p → k.incarnation = none → p.reported = false
  dialHooks : ∀ d ∈ s.tasks, d.spec.hooks = true → d.key.incarnation ≠ none
  callHooks : ∀ c ∈ s.calls, c.spec.hooks = true → c.key.incarnation ≠ none
  exclusive : Exclusive Dial.opens s.tasks
  opens : ∀ d ∈ s.tasks, ∀ c, d.opens = some c →
    c < s.next ∧ (∀ k p, s.conns.lookup k = some p → p.conn ≠ c) ∧ ∀ r ∈ s.reporters, r.2 ≠ c
  reporters : ∀ r ∈ s.reporters, r.2 < s.next ∧ r.1.incarnation ≠ none ∧
    ∀ k p, s.conns.lookup k = some p → p.conn = r.2 → k = r.1 ∧ p.reported = true
  fired : ∀ w ∈ s.watches, w.fired = true → ∀ k p, s.conns.lookup k = some p → p.conn ≠ w.conn
  told : ∀ c ∈ s.told, ∃ w ∈ s.watches, w.fired = true ∧ w.conn = c
  nodup : s.told.Nodup
  opened : ∀ c ∈ s.opened, ∃ w ∈ s.watches, w.conn = c

section Watched

variable {s s' : Pool} {i j : Nat} {d : Dial} {c : Call} {r : PoolKey × Nat}

theorem mem_reporters : r ∈ s.reporters ↔
    (∃ d ∈ s.tasks, d.reporting = some r) ∨ (∃ c ∈ s.calls, c.reporting = some r) ∨ ∃ w ∈ s.watches, (w.key, w.conn) = r := by
  unfold Pool.reporters
  rw [List.mem_append, List.mem_append, List.mem_filterMap, List.mem_filterMap, List.mem_map, or_assoc]

theorem mem_reporters_of_watch {w : Watch} (hw : w ∈ s.watches) : (w.key, w.conn) ∈ s.reporters :=
  mem_reporters.mpr (.inr (.inr ⟨w, hw, rfl⟩))

theorem mem_reporters_of_pooled (hi : s.tasks[i]? = some d) {conn : Nat} (hstage : d.stage = .pooled conn)
    (hhooks : d.spec.hooks = true) : (d.key, conn) ∈ s.reporters := by
  refine mem_reporters.mpr (.inl ⟨d, List.mem_of_getElem? hi, ?_⟩)
  rw [Dial.reporting, hstage, hhooks]
  rfl

theorem mem_reporters_of_found (hj : s.calls[j]? = some c) {conn : Nat} (hstage : c.stage = .found conn) :
    (c.key, conn) ∈ s.reporters := by
  refine mem_reporters.mpr (.inr (.inl ⟨c, List.mem_of_getElem? hj, ?_⟩))
  rw [Call.reporting, hstage]

theorem holds_iff {k : PoolKey} {conn : Nat} : s.holds k conn = true ↔ ∃ p, s.conns.lookup k = some p ∧ p.conn = conn := by
  unfold holds
  cases s.conns.lookup k with
  | none => simp
  | some p => simp

theorem reporters_dialGoes {stage : DialStage} (hr : r ∈ (s.dialGoes i d stage).reporters) :
    ({ d with stage := stage } : Dial).reporting = some r ∨ r ∈ s.reporters := by
  rw [mem_reporters] at hr
  rcases hr with ⟨d', hd', hr⟩ | hr
  · rcases List.mem_or_eq_of_mem_set hd' with hd' | rfl
    · exact .inr (mem_reporters.mpr (.inl ⟨d', hd', hr⟩))
    · exact .inl hr
  · exact .inr (mem_reporters.mpr (.inr hr))

theorem reporters_callGoes {stage : CallStage} (hr : r ∈ (s.callGoes j c stage).reporters) :
    ({ c with stage := stage } : Call).reporting = some r ∨ r ∈ s.reporters := by
  rw [mem_reporters] at hr
  rcases hr with hr | ⟨c', hc', hr⟩ | hr
  · exact .inr (mem_reporters.mpr (.inl hr))
  · rcases List.mem_or_eq_of_mem_set hc' with hc' | rfl
    · exact .inr (mem_reporters.mpr (.inr (.inl ⟨c', hc', hr⟩)))
    · exact .inl hr
  · exact .inr (mem_reporters.mpr (.inr (.inr hr)))

theorem reporters_report {k : PoolKey} {conn : Nat} (hr : r ∈ (s.report k conn).reporters) : r = (k, conn) ∨ r ∈ s.reporters := by
  rw [mem_reporters] at hr
  rcases hr with hr | hr | ⟨w, hw, hr⟩
  · exact .inr (mem_reporters.mpr (.inl hr))
  · exact .inr (mem_reporters.mpr (.inr (.inl hr)))
  · rcases List.mem_append.mp hw with hw | hw
    · exact .inr (hr ▸ mem_reporters_of_watch hw)
    · rw [List.mem_singleton.mp hw] at hr
      exact .inl hr.symm

/-- A call or a dial that begins reports nothing. -/
theorem reporters_start (hr : r ∈ (s.start c).reporters) : r ∈ s.reporters := by
  rw [mem_reporters] at hr ⊢
  refine hr.imp_left ?_
  rintro ⟨d, hd, hr⟩
  rcases List.mem_append.mp hd with hd | hd
  · exact ⟨d, hd, hr⟩
  · rw [List.mem_singleton.mp hd] at hr
    cases hr

theorem reporters_called {key : PoolKey} {spec : DialSpec}
    (hr : r ∈ Pool.reporters { s with calls := s.calls ++ [⟨key, spec, .looking⟩] }) : r ∈ s.reporters := by
  rw [mem_reporters] at hr ⊢
  refine hr.imp_right (Or.imp_left ?_)
  rintro ⟨c, hc, hr⟩
  rcases List.mem_append.mp hc with hc | hc
  · exact ⟨c, hc, hr⟩
  · rw [List.mem_singleton.mp hc] at hr
    cases hr

/-- A cancel reaches a dial as it is. -/
theorem mem_cancelDials {p : Dial → Bool} {d' : Dial} (hd' : d' ∈ s.cancelDials p) :
    ∃ d ∈ s.tasks, d'.key = d.key ∧ d'.spec = d.spec ∧ d'.opens = d.opens ∧ d'.reporting = d.reporting := by
  obtain ⟨i, hi⟩ := List.mem_iff_getElem?.mp hd'
  obtain ⟨d, hd, rfl⟩ := of_getElem?_cancelDials hi
  exact ⟨d, List.mem_of_getElem? hd, rfl, rfl, rfl, rfl⟩

theorem reporters_cancelDials {p : Dial → Bool} (hr : r ∈ Pool.reporters { s with tasks := s.cancelDials p }) :
    r ∈ s.reporters := by
  rw [mem_reporters] at hr ⊢
  refine hr.imp_left ?_
  rintro ⟨d', hd', hr⟩
  obtain ⟨d, hd, -, -, -, hreporting⟩ := mem_cancelDials hd'
  exact ⟨d, hd, hreporting ▸ hr⟩

theorem reporters_fired {w : Nat} {k : PoolKey} {conn : Nat} {fired fired' : Bool} (hw : s.watches[w]? = some ⟨k, conn, fired⟩)
    (hr : r ∈ Pool.reporters { s with watches := s.watches.set w ⟨k, conn, fired'⟩ }) : r ∈ s.reporters := by
  rw [mem_reporters] at hr ⊢
  refine hr.imp_right (Or.imp_right ?_)
  rintro ⟨v, hv, hr⟩
  rcases List.mem_or_eq_of_mem_set hv with hv | rfl
  · exact ⟨v, hv, hr⟩
  · exact ⟨_, List.mem_of_getElem? hw, hr⟩

/-- Fewer connections pooled, with no more reporters and none of the dials past its select that was not. -/
theorem Watched.mono (h : Watched s) (hconns : ∀ k p, s'.conns.lookup k = some p → s.conns.lookup k = some p)
    (hnext : s'.next = s.next) (hdials : ∀ d ∈ s'.tasks, d.spec.hooks = true → d.key.incarnation ≠ none)
    (hcalls : ∀ c ∈ s'.calls, c.spec.hooks = true → c.key.incarnation ≠ none) (hexclusive : Exclusive Dial.opens s'.tasks)
    (hopens : ∀ d' ∈ s'.tasks, ∀ c, d'.opens = some c → ∃ d ∈ s.tasks, d.opens = some c)
    (hreporters : ∀ r ∈ s'.reporters, r ∈ s.reporters) (hwatches : s'.watches = s.watches) (htold : s'.told = s.told)
    (hopened : s'.opened = s.opened) : Watched s' where
  fresh k p hp := hnext ▸ h.fresh k p (hconns k p hp)
  single k k' p p' hp hp' := h.single k k' p p' (hconns k p hp) (hconns k' p' hp')
  birthless k p hp := h.birthless k p (hconns k p hp)
  dialHooks := hdials
  callHooks := hcalls
  exclusive := hexclusive
  opens d' hd' c hc := by
    obtain ⟨d, hd, hdc⟩ := hopens d' hd' c hc
    obtain ⟨hlt, hpool, hrep⟩ := h.opens d hd c hdc
    exact ⟨hnext ▸ hlt, fun k p hp => hpool k p (hconns k p hp), fun r hr => hrep r (hreporters r hr)⟩
  reporters r hr := by
    obtain ⟨hlt, hbirth, hpool⟩ := h.reporters r (hreporters r hr)
    exact ⟨hnext ▸ hlt, hbirth, fun k p hp => hpool k p (hconns k p hp)⟩
  fired w hw hf k p hp := h.fired w (hwatches ▸ hw) hf k p (hconns k p hp)
  told c hc := hwatches ▸ h.told c (htold ▸ hc)
  nodup := htold ▸ h.nodup
  opened c hc := hwatches ▸ h.opened c (hopened ▸ hc)

/-- Fewer connections pooled, and nothing else that is watched. -/
theorem Watched.shrink (h : Watched s) (hconns : ∀ k p, s'.conns.lookup k = some p → s.conns.lookup k = some p)
    (htasks : s'.tasks = s.tasks) (hcalls : s'.calls = s.calls) (hwatches : s'.watches = s.watches)
    (hnext : s'.next = s.next) (htold : s'.told = s.told) (hopened : s'.opened = s.opened) : Watched s' := by
  have hreporters : s'.reporters = s.reporters := by
    unfold Pool.reporters
    rw [htasks, hcalls, hwatches]
  exact h.mono hconns hnext (htasks ▸ h.dialHooks) (hcalls ▸ h.callHooks) (htasks ▸ h.exclusive)
    (htasks ▸ fun d hd c hc => ⟨d, hd, hc⟩) (fun r hr => hreporters ▸ hr) hwatches htold hopened

/-- A dial goes on, past its select only if it was, and reports nothing more. -/
theorem Watched.dial (h : Watched s) (hi : s.tasks[i]? = some d) {stage : DialStage}
    (hopens : ∀ c, ({ d with stage := stage } : Dial).opens = some c → d.opens = some c)
    (hreporting : ∀ r, ({ d with stage := stage } : Dial).reporting = some r → d.reporting = some r) :
    Watched (s.dialGoes i d stage) := by
  have hd := List.mem_of_getElem? hi
  refine h.mono (fun _ _ hp => hp) rfl (forall_mem_set h.dialHooks (h.dialHooks d hd)) h.callHooks
    (h.exclusive.set hi fun c hc => .inl (hopens c hc)) (fun d' hd' c hc => ?_) (fun r hr => ?_) rfl rfl rfl
  · rcases List.mem_or_eq_of_mem_set hd' with hd' | rfl
    · exact ⟨d', hd', hc⟩
    · exact ⟨d, hd, hopens c hc⟩
  · rcases reporters_dialGoes hr with hr | hr
    · exact mem_reporters.mpr (.inl ⟨d, hd, hreporting r hr⟩)
    · exact hr

/-- A call goes on, and reports nothing more. -/
theorem Watched.call (h : Watched s) (hj : s.calls[j]? = some c) {stage : CallStage}
    (hreporting : ∀ r, ({ c with stage := stage } : Call).reporting = some r → c.reporting = some r) :
    Watched (s.callGoes j c stage) := by
  have hc := List.mem_of_getElem? hj
  refine h.mono (fun _ _ hp => hp) rfl h.dialHooks (forall_mem_set h.callHooks (h.callHooks c hc)) h.exclusive
    (fun d hd c hc => ⟨d, hd, hc⟩) (fun r hr => ?_) rfl rfl rfl
  rcases reporters_callGoes hr with hr | hr
  · exact mem_reporters.mpr (.inr (.inl ⟨c, hc, hreporting r hr⟩))
  · exact hr

theorem Watched.dialQuiet (h : Watched s) (hi : s.tasks[i]? = some d) {stage : DialStage}
    (hopens : ({ d with stage := stage } : Dial).opens = none)
    (hreporting : ({ d with stage := stage } : Dial).reporting = none) : Watched (s.dialGoes i d stage) := by
  refine h.dial hi (fun c hc => ?_) fun r hr => ?_
  · rw [hopens] at hc
    cases hc
  · rw [hreporting] at hr
    cases hr

theorem Watched.callQuiet (h : Watched s) (hj : s.calls[j]? = some c) {stage : CallStage}
    (hreporting : ({ c with stage := stage } : Call).reporting = none) : Watched (s.callGoes j c stage) := by
  refine h.call hj fun r hr => ?_
  rw [hreporting] at hr
  cases hr

theorem Watched.cancelMore (h : Watched s) (p : Dial → Bool) : Watched { s with tasks := s.cancelDials p } := by
  refine h.mono (fun _ _ hp => hp) rfl (fun d' hd' hh => ?_) h.callHooks ?_ (fun d' hd' c hc => ?_)
    (fun _ hr => reporters_cancelDials hr) rfl rfl rfl
  · obtain ⟨d, hd, hkey, hspec, -, -⟩ := mem_cancelDials hd'
    rw [hkey]
    exact h.dialHooks d hd (hspec ▸ hh)
  · intro i l a b c ha hb hca hcb
    obtain ⟨a₀, ha₀, rfl⟩ := of_getElem?_cancelDials ha
    obtain ⟨b₀, hb₀, rfl⟩ := of_getElem?_cancelDials hb
    exact h.exclusive i l a₀ b₀ c ha₀ hb₀ hca hcb
  · obtain ⟨d, hd, -, -, hopens, -⟩ := mem_cancelDials hd'
    exact ⟨d, hd, hopens ▸ hc⟩

/-- The opening of a connection is reported, and it is watched. -/
theorem Watched.report (h : Watched s) (hr : r ∈ s.reporters) : Watched (s.report r.1 r.2) := by
  have hreporters : ∀ q ∈ (s.report r.1 r.2).reporters, q ∈ s.reporters := by
    intro q hq
    rcases reporters_report hq with rfl | hq
    · exact hr
    · exact hq
  refine ⟨h.fresh, h.single, h.birthless, h.dialHooks, h.callHooks, h.exclusive, fun d hd c hc => ?_,
    fun q hq => h.reporters q (hreporters q hq), fun w hw hf => ?_, fun c hc => ?_, h.nodup, fun c hc => ?_⟩
  · obtain ⟨hlt, hpool, hrep⟩ := h.opens d hd c hc
    exact ⟨hlt, hpool, fun q hq => hrep q (hreporters q hq)⟩
  · rcases List.mem_append.mp hw with hw | hw
    · exact h.fired w hw hf
    · rw [List.mem_singleton.mp hw] at hf
      cases hf
  · obtain ⟨w, hw, hf⟩ := h.told c hc
    exact ⟨w, List.mem_append_left _ hw, hf⟩
  · rcases List.mem_append.mp hc with hc | hc
    · obtain ⟨w, hw, hwc⟩ := h.opened c hc
      exact ⟨w, List.mem_append_left _ hw, hwc⟩
    · exact ⟨_, List.mem_append_right _ (List.mem_singleton_self _), (List.mem_singleton.mp hc).symm⟩

/-- A dial connects: its connection is a new one. -/
theorem Watched.connects (h : Watched s) (hi : s.tasks[i]? = some d) :
    Watched ({ s with next := s.next + 1 }.dialGoes i d (.connected s.next)) := by
  have hd := List.mem_of_getElem? hi
  have hreporters : ∀ r ∈ ({ s with next := s.next + 1 }.dialGoes i d (.connected s.next)).reporters, r ∈ s.reporters := by
    intro r hr
    rcases reporters_dialGoes (s := s) hr with hr | hr
    · cases hr
    · exact hr
  have hfree : LockFree Dial.opens s.tasks s.next := by
    intro e he hopens
    exact Nat.lt_irrefl _ (h.opens e he s.next hopens).1
  refine ⟨fun k p hp => Nat.lt_succ_of_lt (h.fresh k p hp), h.single, h.birthless,
    forall_mem_set h.dialHooks (h.dialHooks d hd), h.callHooks, ?_, fun e he c hc => ?_, fun r hr => ?_, h.fired, h.told,
    h.nodup, h.opened⟩
  · refine h.exclusive.set hi fun c hc => .inr ?_
    cases hc
    exact hfree
  · rcases List.mem_or_eq_of_mem_set he with he | rfl
    · obtain ⟨hlt, hpool, hrep⟩ := h.opens e he c hc
      exact ⟨Nat.lt_succ_of_lt hlt, hpool, fun r hr => hrep r (hreporters r hr)⟩
    · cases hc
      refine ⟨Nat.lt_succ_self _, fun k p hp => Nat.ne_of_lt (h.fresh k p hp), fun r hr => ?_⟩
      exact Nat.ne_of_lt (h.reporters r (hreporters r hr)).1
  · obtain ⟨hlt, hbirth, hpool⟩ := h.reporters r (hreporters r hr)
    exact ⟨Nat.lt_succ_of_lt hlt, hbirth, hpool⟩

/-- A call is to report a live connection whose opening none reported. -/
theorem Watched.claims (h : Watched s) (hj : s.calls[j]? = some c) {p : Pooled} (hp : s.conns.lookup c.key = some p)
    (hreported : p.reported = false) (hhooks : c.spec.hooks = true) :
    Watched ({ s with conns := s.conns.insert c.key { p with reported := true } }.callGoes j c (.found p.conn)) := by
  have hc := List.mem_of_getElem? hj
  have hnone : ∀ r ∈ s.reporters, r.2 ≠ p.conn := by
    intro r hr heq
    have htrue := ((h.reporters r hr).2.2 c.key p hp heq.symm).2
    rw [hreported] at htrue
    cases htrue
  -- the connection pooled under a key is the one that was
  have hconn : ∀ k q, (s.conns.insert c.key { p with reported := true }).lookup k = some q →
      ∃ q', s.conns.lookup k = some q' ∧ q'.conn = q.conn := by
    intro k q hq
    obtain ⟨rfl, rfl⟩ | ⟨-, hq⟩ := of_lookup_insert hq
    · exact ⟨p, hp, rfl⟩
    · exact ⟨q, hq, rfl⟩
  have hreporters : ∀ r ∈ ({ s with conns := s.conns.insert c.key { p with reported := true } }.callGoes j c
      (.found p.conn)).reporters, r = (c.key, p.conn) ∨ r ∈ s.reporters := by
    intro r hr
    exact (reporters_callGoes (s := s) hr).imp_left fun hr => (Option.some.inj hr).symm
  refine ⟨fun k q hq => ?_, fun k k' q q' hq hq' heq => ?_, fun k q hq hbirth => ?_, h.dialHooks,
    forall_mem_set h.callHooks (h.callHooks c hc), h.exclusive, fun d hd conn hopens => ?_, fun r hr => ?_,
    fun w hw hf k q hq => ?_, h.told, h.nodup, h.opened⟩
  · obtain ⟨q', hq', heq⟩ := hconn k q hq
    exact heq ▸ h.fresh k q' hq'
  · obtain ⟨a, ha, haq⟩ := hconn k q hq
    obtain ⟨b, hb, hbq⟩ := hconn k' q' hq'
    exact h.single k k' a b ha hb (haq.trans (heq.trans hbq.symm))
  · obtain ⟨rfl, rfl⟩ | ⟨-, hq⟩ := of_lookup_insert hq
    · exact absurd hbirth (h.callHooks c hc hhooks)
    · exact h.birthless k q hq hbirth
  · obtain ⟨hlt, hpool, hrep⟩ := h.opens d hd conn hopens
    refine ⟨hlt, fun k q hq => ?_, fun r hr => ?_⟩
    · obtain ⟨q', hq', heq⟩ := hconn k q hq
      exact heq ▸ hpool k q' hq'
    · rcases hreporters r hr with rfl | hr
      · exact hpool c.key p hp
      · exact hrep r hr
  · rcases hreporters r hr with rfl | hr
    · refine ⟨h.fresh c.key p hp, h.callHooks c hc hhooks, fun k q hq heq => ?_⟩
      obtain ⟨rfl, rfl⟩ | ⟨hne, hq⟩ := of_lookup_insert hq
      · exact ⟨rfl, rfl⟩
      · exact absurd (h.single k c.key q p hq hp heq) hne
    · obtain ⟨hlt, hbirth, hpool⟩ := h.reporters r hr
      refine ⟨hlt, hbirth, fun k q hq heq => ?_⟩
      obtain ⟨rfl, rfl⟩ | ⟨-, hq⟩ := of_lookup_insert hq
      · exact absurd heq.symm (hnone r hr)
      · exact hpool k q hq heq
  · obtain ⟨q', hq', heq⟩ := hconn k q hq
    exact heq ▸ h.fired w hw hf k q' hq'

/-- A dial's connection enters the pool. -/
theorem Watched.pools (h : Watched s) (hi : s.tasks[i]? = some d) {conn : Nat} (hstage : d.stage = .current conn) : Watched
    ({ s with conns := s.conns.insert d.key (⟨conn, d.spec.addr, d.spec.hooks⟩ : Pooled) }.dialGoes i d (.pooled conn)) := by
  have hd := List.mem_of_getElem? hi
  have hdopens : d.opens = some conn := by rw [Dial.opens, hstage]
  obtain ⟨hlt, hpool, hrep⟩ := h.opens d hd conn hdopens
  have hreporters : ∀ r ∈ ({ s with conns := s.conns.insert d.key (⟨conn, d.spec.addr, d.spec.hooks⟩ : Pooled) }.dialGoes i d
      (.pooled conn)).reporters, r = (d.key, conn) ∧ d.spec.hooks = true ∨ r ∈ s.reporters := by
    intro r hr
    refine (reporters_dialGoes (s := s) hr).imp_left fun hr => ?_
    simp only [Dial.reporting] at hr
    split at hr
    next hhooks => exact ⟨(Option.some.inj hr).symm, hhooks⟩
    next => cases hr
  have hgone : ({ d with stage := .pooled conn } : Dial).opens = none := rfl
  refine ⟨fun k q hq => ?_, fun k k' q q' hq hq' heq => ?_, fun k q hq hbirth => ?_,
    forall_mem_set h.dialHooks (h.dialHooks d hd), h.callHooks, ?_, fun e he c hopens => ?_, fun r hr => ?_,
    fun w hw hf k q hq => ?_, h.told, h.nodup, h.opened⟩
  · obtain ⟨rfl, rfl⟩ | ⟨-, hq⟩ := of_lookup_insert hq
    · exact hlt
    · exact h.fresh k q hq
  · obtain ⟨rfl, rfl⟩ | ⟨-, hq⟩ := of_lookup_insert hq
    · obtain ⟨rfl, rfl⟩ | ⟨-, hq'⟩ := of_lookup_insert hq'
      · rfl
      · exact absurd heq.symm (hpool k' q' hq')
    · obtain ⟨rfl, rfl⟩ | ⟨-, hq'⟩ := of_lookup_insert hq'
      · exact absurd heq (hpool k q hq)
      · exact h.single k k' q q' hq hq' heq
  · obtain ⟨rfl, rfl⟩ | ⟨-, hq⟩ := of_lookup_insert hq
    · by_contra hhooks
      exact h.dialHooks d hd (Bool.eq_true_of_not_eq_false hhooks) hbirth
    · exact h.birthless k q hq hbirth
  · refine h.exclusive.set hi fun c hc => ?_
    rw [hgone] at hc
    cases hc
  · obtain ⟨l, hl⟩ := List.mem_iff_getElem?.mp he
    obtain ⟨-, rfl⟩ | ⟨hne, hl⟩ := getElem?_of_set hl
    · rw [hgone] at hopens
      cases hopens
    · obtain ⟨hlt', hpool', hrep'⟩ := h.opens e (List.mem_of_getElem? hl) c hopens
      have hother : conn ≠ c := by
        rintro rfl
        exact hne (h.exclusive l i e d conn hl hi hopens hdopens)
      refine ⟨hlt', fun k q hq => ?_, fun r hr => ?_⟩
      · obtain ⟨rfl, rfl⟩ | ⟨-, hq⟩ := of_lookup_insert hq
        · exact hother
        · exact hpool' k q hq
      · obtain ⟨rfl, -⟩ | hr := hreporters r hr
        · exact hother
        · exact hrep' r hr
  · obtain ⟨rfl, hhooks⟩ | hr := hreporters r hr
    · refine ⟨hlt, h.dialHooks d hd hhooks, fun k q hq heq => ?_⟩
      obtain ⟨rfl, rfl⟩ | ⟨-, hq⟩ := of_lookup_insert hq
      · exact ⟨rfl, hhooks⟩
      · exact absurd heq (hpool k q hq)
    · obtain ⟨hlt', hbirth, hpool'⟩ := h.reporters r hr
      refine ⟨hlt', hbirth, fun k q hq heq => ?_⟩
      obtain ⟨rfl, rfl⟩ | ⟨-, hq⟩ := of_lookup_insert hq
      · exact absurd heq.symm (hrep r hr)
      · exact hpool' k q hq heq
  · obtain ⟨rfl, rfl⟩ | ⟨-, hq⟩ := of_lookup_insert hq
    · exact Ne.symm (hrep _ (mem_reporters_of_watch hw))
    · exact h.fired w hw hf k q hq

/-- What is pooled after a purge was pooled there, or under no birth. -/
theorem of_lookup_purgeConns {node : ResolvedNode} {k : PoolKey} {p : Pooled}
    (h : (purgeConns node s.closed s.conns).lookup k = some p) :
    (k.incarnation = none → k.peer ≠ node.endpointId) ∧ (s.conns.lookup k = some p ∨
      k.peer = node.endpointId ∧ k.incarnation = some node.incarnation ∧ s.conns.lookup k.birthless = some p) := by
  rw [lookup_purgeConns] at h
  split at h
  next hpeer =>
    split at h
    next hbirth =>
      refine ⟨fun hnone => ?_, ?_⟩
      · rw [hbirth] at hnone
        cases hnone
      · rcases Option.or_eq_some_iff.mp h with h | ⟨-, h⟩
        · exact .inl h
        · exact .inr ⟨hpeer, hbirth, (Option.filter_eq_some_iff.mp h).1⟩
    next => cases h
  next hpeer => exact ⟨fun _ => hpeer, .inl h⟩

theorem birthless_injective {k k' : PoolKey} (hbirth : k.incarnation = k'.incarnation) (h : k.birthless = k'.birthless) :
    k = k' := by
  cases k
  cases k'
  cases hbirth
  cases h
  rfl

/-- A purge moves a connection that none reported from no birth onto the node's. -/
theorem Watched.purges (h : Watched s) (node : ResolvedNode) :
    Watched { s with conns := purgeConns node s.closed s.conns, purging := s.purging ++ [node] } := by
  -- the connection was pooled under the key, or under its birthless one
  have hwas : ∀ k p, (purgeConns node s.closed s.conns).lookup k = some p →
      ∃ k', s.conns.lookup k' = some p ∧ (k' = k ∨ k'.incarnation = none) := by
    intro k p hp
    rcases (of_lookup_purgeConns hp).2 with hp | ⟨-, -, hp⟩
    · exact ⟨k, hp, .inl rfl⟩
    · exact ⟨k.birthless, hp, .inr rfl⟩
  refine ⟨fun k p hp => ?_, fun k k' p p' hp hp' heq => ?_, fun k p hp hbirth => ?_, h.dialHooks, h.callHooks, h.exclusive,
    fun d hd c hc => ?_, fun r hr => ?_, fun w hw hf k p hp => ?_, h.told, h.nodup, h.opened⟩
  · obtain ⟨k', hk', -⟩ := hwas k p hp
    exact h.fresh k' p hk'
  · obtain ⟨hgone, hk⟩ := of_lookup_purgeConns hp
    obtain ⟨hgone', hk'⟩ := of_lookup_purgeConns hp'
    rcases hk with hk | ⟨hpeer, hbirth, hk⟩
    · rcases hk' with hk' | ⟨hpeer', hbirth', hk'⟩
      · exact h.single k k' p p' hk hk' heq
      · obtain rfl := h.single k k'.birthless p p' hk hk' heq
        exact absurd hpeer' (hgone rfl)
    · rcases hk' with hk' | ⟨hpeer', hbirth', hk'⟩
      · obtain rfl := h.single k.birthless k' p p' hk hk' heq
        exact absurd hpeer (hgone' rfl)
      · exact birthless_injective (hbirth.trans hbirth'.symm) (h.single _ _ p p' hk hk' heq)
  · obtain ⟨k', hk', heq | hnone⟩ := hwas k p hp
    · exact h.birthless k' p hk' (heq ▸ hbirth)
    · exact h.birthless k' p hk' hnone
  · obtain ⟨hlt, hpool, hrep⟩ := h.opens d hd c hc
    refine ⟨hlt, fun k p hp => ?_, hrep⟩
    obtain ⟨k', hk', -⟩ := hwas k p hp
    exact hpool k' p hk'
  · obtain ⟨hlt, hbirth, hpool⟩ := h.reporters r hr
    refine ⟨hlt, hbirth, fun k p hp heq => ?_⟩
    obtain ⟨k', hk', hkey⟩ := hwas k p hp
    obtain ⟨hrk, hreported⟩ := hpool k' p hk' heq
    rcases hkey with rfl | hnone
    · exact ⟨hrk, hreported⟩
    · exact absurd hnone (hrk ▸ hbirth)
  · obtain ⟨k', hk', -⟩ := hwas k p hp
    exact h.fired w hw hf k' p hk'

/-- A watch fires: the connection is in the pool no more, and told closed if its watch removed it. -/
theorem Watched.fires (h : Watched s) {w : Nat} {k : PoolKey} {conn : Nat} (hw : s.watches[w]? = some ⟨k, conn, false⟩) :
    Watched { s with
      conns := s.removePooled k conn
      told := if s.holds k conn then s.told ++ [conn] else s.told
      watches := s.watches.set w ⟨k, conn, true⟩ } := by
  have hmem := List.mem_of_getElem? hw
  have hself : (⟨k, conn, true⟩ : Watch) ∈ s.watches.set w ⟨k, conn, true⟩ := mem_set_self hw
  -- a watch that fired before still stands, and none is gone
  have hstays : ∀ v ∈ s.watches, v.fired = true → v ∈ s.watches.set w ⟨k, conn, true⟩ := by
    intro v hv hf
    refine mem_set_of_mem hw hv ?_
    rintro rfl
    cases hf
  obtain ⟨-, -, hpool⟩ := h.reporters _ (mem_reporters_of_watch hmem)
  have hgone : ∀ q p, (s.removePooled k conn).lookup q = some p → p.conn ≠ conn := by
    intro q p hp heq
    obtain ⟨hq, -⟩ := hpool q p (lookup_removePooled hp) heq
    change q = k at hq
    subst hq
    have hholds := holds_iff.mpr ⟨p, lookup_removePooled hp, heq⟩
    unfold removePooled at hp
    rw [if_pos hholds, AList.lookup_erase] at hp
    cases hp
  refine ⟨fun q p hp => h.fresh q p (lookup_removePooled hp),
    fun q q' p p' hp hp' => h.single q q' p p' (lookup_removePooled hp) (lookup_removePooled hp'),
    fun q p hp => h.birthless q p (lookup_removePooled hp), h.dialHooks, h.callHooks, h.exclusive, fun d hd c hc => ?_,
    fun r hr => ?_, fun v hv hf q p hp => ?_, fun c hc => ?_, ?_, fun c hc => ?_⟩
  · obtain ⟨hlt, hpool', hrep'⟩ := h.opens d hd c hc
    exact ⟨hlt, fun q p hp => hpool' q p (lookup_removePooled hp), fun r hr => hrep' r (reporters_fired hw hr)⟩
  · obtain ⟨hlt, hbirth, hpool'⟩ := h.reporters r (reporters_fired hw hr)
    exact ⟨hlt, hbirth, fun q p hp => hpool' q p (lookup_removePooled hp)⟩
  · rcases List.mem_or_eq_of_mem_set hv with hv | rfl
    · exact h.fired v hv hf q p (lookup_removePooled hp)
    · exact hgone q p hp
  · change c ∈ if s.holds k conn then s.told ++ [conn] else s.told at hc
    have hcases : c ∈ s.told ∨ c = conn := by
      split at hc
      next => simpa using hc
      next => exact .inl hc
    rcases hcases with hc | rfl
    · obtain ⟨v, hv, hf, hvc⟩ := h.told c hc
      exact ⟨v, hstays v hv hf, hf, hvc⟩
    · exact ⟨_, hself, rfl, rfl⟩
  · change (if s.holds k conn then s.told ++ [conn] else s.told).Nodup
    split
    next hholds =>
      obtain ⟨p, hp, hpc⟩ := holds_iff.mp hholds
      have hnot : conn ∉ s.told := by
        intro hc
        obtain ⟨v, hv, hf, hvc⟩ := h.told conn hc
        exact h.fired v hv hf k p hp (hpc.trans hvc.symm)
      rw [List.nodup_append]
      refine ⟨h.nodup, List.nodup_singleton _, fun a ha b hb heq => ?_⟩
      rw [heq, List.mem_singleton.mp hb] at ha
      exact hnot ha
    next => exact h.nodup
  · exact exists_mem_set hw (h.opened c hc) id

theorem Watched.starts (h : Watched s) (hj : s.calls[j]? = some c) : Watched (s.start c) := by
  have hc := List.mem_of_getElem? hj
  refine h.mono (fun _ _ hp => hp) rfl (fun d hd hh => ?_) h.callHooks (h.exclusive.append rfl) (fun d hd conn hopens => ?_)
    (fun _ hr => reporters_start hr) rfl rfl rfl
  · rcases List.mem_append.mp hd with hd | hd
    · exact h.dialHooks d hd hh
    · obtain rfl := List.mem_singleton.mp hd
      exact h.callHooks c hc hh
  · rcases List.mem_append.mp hd with hd | hd
    · exact ⟨d, hd, hopens⟩
    · rw [List.mem_singleton.mp hd] at hopens
      cases hopens

theorem Watched.calls (h : Watched s) (key : PoolKey) (spec : DialSpec) : Watched
    { s with calls := s.calls ++ [⟨key, { spec with hooks := spec.hooks && key.incarnation.isSome }, .looking⟩] } := by
  refine h.mono (fun _ _ hp => hp) rfl h.dialHooks (fun c hc hh => ?_) h.exclusive (fun d hd c hc => ⟨d, hd, hc⟩)
    (fun _ hr => reporters_called hr) rfl rfl rfl
  rcases List.mem_append.mp hc with hc | hc
  · exact h.callHooks c hc hh
  · obtain rfl := List.mem_singleton.mp hc
    exact Option.isSome_iff_ne_none.mp (Bool.and_eq_true_iff.mp hh).2

theorem watched_step (h : Watched s) (m : Move) : Watched (step s m) := by
  have hdoes := step_does s m
  generalize step s m = s' at hdoes ⊢
  cases hdoes with
  | nothing => exact h
  | called key spec => exact h.calls key spec
  | absent hj hstage hnone => exact h.callQuiet hj rfl
  | @lost j c p hj hstage hp hclosed =>
    have hshrink : Watched { s with conns := s.conns.erase c.key } :=
      h.shrink (fun _ _ hk => (of_lookup_erase hk).2) rfl rfl rfl rfl rfl rfl
    exact hshrink.callQuiet hj rfl
  | claimed hj hstage hp hlive hreported hhooks => exact h.claims hj hp hreported hhooks
  | reused hj hstage hp hlive => exact h.callQuiet hj rfl
  | reported hj hstage => exact (h.report (mem_reporters_of_found hj hstage)).callQuiet hj rfl
  | refused hj hstage hblocked => exact h.callQuiet hj rfl
  | asked hj hstage hblocked => exact h.callQuiet hj rfl
  | joined hj hstage hdials => exact h.callQuiet hj rfl
  | started hj hstage hdials => exact (h.starts hj).callQuiet hj rfl
  | heard hj hstage out => exact h.callQuiet hj rfl
  | expired hj hstage => exact h.callQuiet hj rfl
  | connected hi hstage hcancel => exact h.connects hi
  | failed hi hstage => exact h.dialQuiet hi rfl rfl
  | stopped hi hstage => exact h.dialQuiet hi rfl rfl
  | @unadmitted i d c why hi hstage hblocked =>
    have hclosed : Watched (s.closeConn c) := h.shrink (fun _ _ hp => hp) rfl rfl rfl rfl rfl rfl
    exact hclosed.dialQuiet hi rfl rfl
  | admitted hi hstage hblocked =>
    refine h.dial hi (fun c hc => ?_) fun r hr => ?_
    · rw [Dial.opens, hstage]
      exact hc
    · cases hr
  | @superseded i d c now hi hstage =>
    have hclosed : Watched (s.closeConn c) := h.shrink (fun _ _ hp => hp) rfl rfl rfl rfl rfl rfl
    exact hclosed.dialQuiet hi rfl rfl
  | checked hi hstage =>
    refine h.dial hi (fun c hc => ?_) fun r hr => ?_
    · rw [Dial.opens, hstage]
      exact hc
    · cases hr
  | pooled hi hstage => exact h.pools hi hstage
  | told hi hstage hhooks => exact (h.report (mem_reporters_of_pooled hi hstage hhooks)).dialQuiet hi rfl rfl
  | untold hi hstage => exact h.dialQuiet hi rfl rfl
  | @left i d out hi hstage =>
    have hleft : Watched { s with dials := Function.update s.dials d.key none } :=
      h.shrink (fun _ _ hp => hp) rfl rfl rfl rfl rfl rfl
    exact hleft.dialQuiet hi rfl rfl
  | cut c => exact (h.cancelMore _).shrink (fun _ _ hp => hp) rfl rfl rfl rfl rfl rfl
  | emptied hj => exact h.shrink (fun _ _ hp => (of_lookup_filterKeys hp).2) rfl rfl rfl rfl rfl rfl
  | returned hj => exact h.shrink (fun _ _ hp => hp) rfl rfl rfl rfl rfl rfl
  | purged node => exact h.purges node
  | cancelled hj => exact (h.cancelMore _).shrink (fun _ _ hp => hp) rfl rfl rfl rfl rfl rfl
  | broken k c => exact h.shrink (fun _ _ hp => lookup_removePooled hp) rfl rfl rfl rfl rfl rfl
  | closed hc => exact h.shrink (fun _ _ hp => hp) rfl rfl rfl rfl rfl rfl
  | fired hw hclosed => exact h.fires hw
  | blocked why => exact h.shrink (fun _ _ hp => hp) rfl rfl rfl rfl rfl rfl
  | lifted => exact h.shrink (fun _ _ hp => hp) rfl rfl rfl rfl rfl rfl

theorem watched_new : Watched Pool.new where
  fresh k p hp := by cases hp
  single k k' p p' hp := by cases hp
  birthless k p hp := by cases hp
  dialHooks := List.forall_mem_nil _
  callHooks := List.forall_mem_nil _
  exclusive := exclusive_nil
  opens := List.forall_mem_nil _
  reporters := List.forall_mem_nil _
  fired := List.forall_mem_nil _
  told := List.forall_mem_nil _
  nodup := List.nodup_nil
  opened := List.forall_mem_nil _

end Watched

section Due

variable {s s' : Pool} {i j conn : Nat} {d : Dial} {c : Call}

/-- A connection that closed in the pool: as long as it is not told closed, it is pooled for whoever watches it. -/
structure Due (conn : Nat) (s : Pool) : Prop where
  below : conn < s.next
  closed : s.closed conn = true
  unopened : ∀ d ∈ s.tasks, d.opens ≠ some conn
  due : ∀ r ∈ s.reporters, r.2 = conn → s.holds r.1 conn = true ∨ conn ∈ s.told

theorem Due.mono (h : Due conn s) (hbelow : s.next ≤ s'.next) (hclosed : s.closed conn = true → s'.closed conn = true)
    (hopens : ∀ d ∈ s'.tasks, d.opens ≠ some conn) (hreporters : ∀ r ∈ s'.reporters, r.2 = conn → r ∈ s.reporters)
    (hholds : ∀ r ∈ s.reporters, r.2 = conn → s.holds r.1 conn = true → s'.holds r.1 conn = true ∨ conn ∈ s'.told)
    (htold : conn ∈ s.told → conn ∈ s'.told) : Due conn s' := by
  refine ⟨Nat.lt_of_lt_of_le h.below hbelow, hclosed h.closed, hopens, fun r hr heq => ?_⟩
  have hr₀ := hreporters r hr heq
  rcases h.due r hr₀ heq with hh | ht
  · exact hholds r hr₀ heq hh
  · exact .inr (htold ht)

theorem Due.dial (h : Due conn s) (hi : s.tasks[i]? = some d) {stage : DialStage}
    (hopens : ∀ c, ({ d with stage := stage } : Dial).opens = some c → d.opens = some c)
    (hreporting : ∀ r, ({ d with stage := stage } : Dial).reporting = some r → r.2 = conn → d.reporting = some r) :
    Due conn (s.dialGoes i d stage) := by
  have hd := List.mem_of_getElem? hi
  refine h.mono (Nat.le_refl _) id (forall_mem_set h.unopened fun hc => h.unopened d hd (hopens conn hc)) (fun r hr heq => ?_)
    (fun _ _ _ hh => .inl hh) id
  rcases reporters_dialGoes hr with hr | hr
  · exact mem_reporters.mpr (.inl ⟨d, hd, hreporting r hr heq⟩)
  · exact hr

theorem Due.call (h : Due conn s) (hj : s.calls[j]? = some c) {stage : CallStage}
    (hreporting : ∀ r, ({ c with stage := stage } : Call).reporting = some r → r.2 = conn → c.reporting = some r) :
    Due conn (s.callGoes j c stage) := by
  refine h.mono (Nat.le_refl _) id h.unopened (fun r hr heq => ?_) (fun _ _ _ hh => .inl hh) id
  rcases reporters_callGoes hr with hr | hr
  · exact mem_reporters.mpr (.inr (.inl ⟨c, List.mem_of_getElem? hj, hreporting r hr heq⟩))
  · exact hr

theorem Due.dialQuiet (h : Due conn s) (hi : s.tasks[i]? = some d) {stage : DialStage}
    (hopens : ({ d with stage := stage } : Dial).opens = none)
    (hreporting : ({ d with stage := stage } : Dial).reporting = none) : Due conn (s.dialGoes i d stage) := by
  refine h.dial hi (fun c hc => ?_) fun r hr _ => ?_
  · rw [hopens] at hc
    cases hc
  · rw [hreporting] at hr
    cases hr

theorem Due.callQuiet (h : Due conn s) (hj : s.calls[j]? = some c) {stage : CallStage}
    (hreporting : ({ c with stage := stage } : Call).reporting = none) : Due conn (s.callGoes j c stage) := by
  refine h.call hj fun r hr _ => ?_
  rw [hreporting] at hr
  cases hr

/-- What is pooled changes, and leaves the connection where it is watched. -/
theorem Due.conns (h : Due conn s) (conns : Conns)
    (hholds : ∀ r ∈ s.reporters, r.2 = conn → s.holds r.1 conn = true → Pool.holds { s with conns := conns } r.1 conn = true) :
    Due conn { s with conns := conns } :=
  h.mono (Nat.le_refl _) id h.unopened (fun _ hr _ => hr) (fun r hr heq hh => .inl (hholds r hr heq hh)) id

theorem Due.closesConn (h : Due conn s) (closed : Nat) : Due conn (s.closeConn closed) := by
  refine ⟨h.below, ?_, h.unopened, h.due⟩
  change Function.update s.closed closed true conn = true
  rw [Function.update_apply]
  split
  next => rfl
  next => exact h.closed

theorem Due.report (h : Due conn s) {r : PoolKey × Nat} (hr : r ∈ s.reporters) : Due conn (s.report r.1 r.2) := by
  refine h.mono (Nat.le_refl _) id h.unopened (fun q hq _ => ?_) (fun _ _ _ hh => .inl hh) id
  rcases reporters_report hq with rfl | hq
  · exact hr
  · exact hq

theorem Due.cancelMore (h : Due conn s) (p : Dial → Bool) : Due conn { s with tasks := s.cancelDials p } := by
  refine h.mono (Nat.le_refl _) id (fun d' hd' => ?_) (fun _ hr _ => reporters_cancelDials hr) (fun _ _ _ hh => .inl hh) id
  obtain ⟨d, hd, -, -, hopens, -⟩ := mem_cancelDials hd'
  rw [hopens]
  exact h.unopened d hd

theorem Due.starts (h : Due conn s) (c : Call) : Due conn (s.start c) := by
  refine h.mono (Nat.le_refl _) id (fun d hd => ?_) (fun _ hr _ => reporters_start hr) (fun _ _ _ hh => .inl hh) id
  rcases List.mem_append.mp hd with hd | hd
  · exact h.unopened d hd
  · rw [List.mem_singleton.mp hd]
    nofun

theorem holds_insert {k q : PoolKey} {p : Pooled} (h : s.holds q conn = true) (hp : q = k → p.conn = conn) :
    Pool.holds { s with conns := s.conns.insert k p } q conn = true := by
  obtain ⟨p', hp', hc⟩ := holds_iff.mp h
  refine holds_iff.mpr ?_
  change ∃ p', (s.conns.insert k p).lookup q = some p' ∧ p'.conn = conn
  rw [lookup_insert_eq]
  split
  next heq => exact ⟨p, rfl, hp heq⟩
  next => exact ⟨p', hp', hc⟩

theorem holds_erase {k q : PoolKey} (h : s.holds q conn = true) (hne : q ≠ k) :
    Pool.holds { s with conns := s.conns.erase k } q conn = true := by
  obtain ⟨p, hp, hc⟩ := holds_iff.mp h
  refine holds_iff.mpr ⟨p, ?_, hc⟩
  change (s.conns.erase k).lookup q = some p
  rw [AList.lookup_erase_ne hne]
  exact hp

/-- No step but its watch's takes the connection from under its key. -/
theorem Due.undisplaced (h : Due conn s) {m : Move} (hleaves : leavesWatched s m = true) {r : PoolKey × Nat}
    (hr : r ∈ s.reporters) (heq : r.2 = conn) (hh : s.holds r.1 conn = true) : displaces s m r.1 = false := by
  have hall := List.all_eq_true.mp hleaves r hr
  simpa [heq, hh, h.closed] using hall

/-- A call takes a connection out that it finds closed. -/
theorem Due.loses (h : Due conn s) (hj : s.calls[j]? = some c) (hstage : c.stage = .looking) {p : Pooled}
    (hp : s.conns.lookup c.key = some p) (hclosed : s.closed p.conn = true) (hleaves : leavesWatched s (.looks j) = true) :
    Due conn { s with conns := s.conns.erase c.key } := by
  refine h.conns _ fun r hr heq hh => holds_erase hh fun hkey => ?_
  have hdisplaced := h.undisplaced hleaves hr heq hh
  obtain ⟨key, spec, stage⟩ := c
  cases hstage
  change r.1 = key at hkey
  subst hkey
  have hdead : s.live r.1 = false := by
    by_contra hl
    obtain ⟨p', hp', hlive⟩ := live_iff.mp (Bool.eq_true_of_not_eq_false hl)
    obtain rfl := Option.some.inj (hp.symm.trans hp')
    rw [hclosed] at hlive
    cases hlive
  simp [displaces, hj, hdead] at hdisplaced

/-- A call that is to report a connection found it live. -/
theorem Due.claims (h : Due conn s) (hj : s.calls[j]? = some c) {p : Pooled} (hp : s.conns.lookup c.key = some p)
    (hlive : s.closed p.conn = false) : Due conn
      ({ s with conns := s.conns.insert c.key { p with reported := true } }.callGoes j c (.found p.conn)) := by
  have hinsert : Due conn { s with conns := s.conns.insert c.key { p with reported := true } } := by
    refine h.conns _ fun r hr heq hh => holds_insert hh fun hkey => ?_
    obtain ⟨p', hp', hc⟩ := holds_iff.mp hh
    rw [hkey, hp] at hp'
    cases hp'
    exact hc
  refine hinsert.call hj fun r hr heq => ?_
  obtain rfl := Option.some.inj hr
  change p.conn = conn at heq
  rw [heq, h.closed] at hlive
  cases hlive

theorem Due.connects (h : Due conn s) (i : Nat) (d : Dial) :
    Due conn ({ s with next := s.next + 1 }.dialGoes i d (.connected s.next)) := by
  refine h.mono (Nat.le_succ _) id (forall_mem_set h.unopened fun hc => ?_) (fun r hr _ => ?_) (fun _ _ _ hh => .inl hh) id
  · exact absurd (Option.some.inj hc) (Nat.ne_of_gt h.below)
  · rcases reporters_dialGoes (s := s) hr with hr | hr
    · cases hr
    · exact hr

/-- A dial's connection enters the pool: it is another one. -/
theorem Due.pools (h : Due conn s) (hi : s.tasks[i]? = some d) {new : Nat} (hstage : d.stage = .current new)
    (hleaves : leavesWatched s (.pools i) = true) : Due conn
      ({ s with conns := s.conns.insert d.key (⟨new, d.spec.addr, d.spec.hooks⟩ : Pooled) }.dialGoes i d (.pooled new)) := by
  have hopens : d.opens = some new := by rw [Dial.opens, hstage]
  have hinsert : Due conn { s with conns := s.conns.insert d.key (⟨new, d.spec.addr, d.spec.hooks⟩ : Pooled) } := by
    refine h.conns _ fun r hr heq hh => holds_insert hh fun hkey => ?_
    have hdisplaced := h.undisplaced hleaves hr heq hh
    obtain ⟨key, spec, cancel, stage⟩ := d
    cases hstage
    simp [displaces, hi, hkey] at hdisplaced
  refine hinsert.dial hi (fun c hc => by cases hc) fun r hr heq => ?_
  simp only [Dial.reporting] at hr
  split at hr
  next =>
    obtain rfl := Option.some.inj hr
    change new = conn at heq
    exact absurd (heq ▸ hopens) (h.unopened d (List.mem_of_getElem? hi))
  next => cases hr

theorem Due.empties (h : Due conn s) {call : CloseCall} {inFlight : List Nat}
    (hj : s.closes[j]? = some ⟨call, inFlight, .cancelled⟩) (hleaves : leavesWatched s (.empties j) = true) :
    Due conn { s with conns := filterKeys (fun k => !call.covers k) s.conns } := by
  refine h.conns _ fun r hr heq hh => ?_
  have hdisplaced := h.undisplaced hleaves hr heq hh
  have hcovers : call.covers r.1 = false := by simpa [displaces, hj] using hdisplaced
  obtain ⟨p, hp, hc⟩ := holds_iff.mp hh
  refine holds_iff.mpr ⟨p, ?_, hc⟩
  change (filterKeys (fun k => !call.covers k) s.conns).lookup r.1 = some p
  rw [lookup_filterKeys, hcovers]
  exact hp

theorem Due.purges (h : Due conn s) (node : ResolvedNode) (hleaves : leavesWatched s (.purges node) = true) :
    Due conn { s with conns := purgeConns node s.closed s.conns } := by
  refine h.conns _ fun r hr heq hh => ?_
  have hdisplaced := h.undisplaced hleaves hr heq hh
  obtain ⟨p, hp, hc⟩ := holds_iff.mp hh
  refine holds_iff.mpr ⟨p, ?_, hc⟩
  change (purgeConns node s.closed s.conns).lookup r.1 = some p
  rw [lookup_purgeConns, hp]
  by_cases hpeer : r.1.peer = node.endpointId
  · have hbirth : r.1.incarnation = some node.incarnation := by simpa [displaces, hpeer] using hdisplaced
    simp [hpeer, hbirth]
  · simp [hpeer]

/-- What is taken out under a key leaves the connection where another one, or another key, is meant. -/
theorem holds_removePooled {k q : PoolKey} {removed : Nat} (h : s.holds q conn = true)
    (hne : s.holds k removed = true → q ≠ k) : Pool.holds { s with conns := s.removePooled k removed } q conn = true := by
  unfold removePooled
  split
  next hholds => exact holds_erase h (hne hholds)
  next => exact h

theorem Due.breaks (h : Due conn s) {k : PoolKey} {broken : Nat} (hleaves : leavesWatched s (.breaks k broken) = true) :
    Due conn { s with conns := s.removePooled k broken } := by
  refine h.conns _ fun r hr heq hh => holds_removePooled hh fun hholds => ?_
  have hdisplaced := h.undisplaced hleaves hr heq hh
  rintro rfl
  simp [displaces, hholds] at hdisplaced

/-- A watch fires: it tells the connection where it is its own, and leaves it where it is not. -/
theorem Due.fires (hw : Watched s) (h : Due conn s) {w : Nat} {k : PoolKey} {watched : Nat}
    (hwatch : s.watches[w]? = some ⟨k, watched, false⟩) : Due conn { s with
      conns := s.removePooled k watched
      told := if s.holds k watched then s.told ++ [watched] else s.told
      watches := s.watches.set w ⟨k, watched, true⟩ } := by
  refine h.mono (Nat.le_refl _) id h.unopened (fun r hr _ => reporters_fired hwatch hr) (fun r hr heq hh => ?_) fun ht => ?_
  · obtain ⟨p, hp, hpc⟩ := holds_iff.mp hh
    by_cases hc : watched = conn
    · subst hc
      -- the connection is pooled under the watch's key alone
      obtain ⟨hkey, -⟩ := (hw.reporters _ (mem_reporters_of_watch (List.mem_of_getElem? hwatch))).2.2 r.1 p hp hpc
      change r.1 = k at hkey
      rw [hkey] at hh
      refine .inr ?_
      change watched ∈ if s.holds k watched then s.told ++ [watched] else s.told
      rw [if_pos hh]
      exact List.mem_append_right _ (List.mem_singleton_self _)
    · refine .inl (holds_removePooled hh fun hholds => ?_)
      rintro rfl
      obtain ⟨p', hp', hpc'⟩ := holds_iff.mp hholds
      rw [hp] at hp'
      cases hp'
      exact hc (hpc'.symm.trans hpc)
  · change conn ∈ if s.holds k watched then s.told ++ [watched] else s.told
    split
    next => exact List.mem_append_left _ ht
    next => exact ht

theorem due_step (hw : Watched s) (h : Due conn s) (m : Move) (hleaves : leavesWatched s m = true) : Due conn (step s m) := by
  have hdoes := step_does s m
  generalize step s m = s' at hdoes ⊢
  cases hdoes with
  | nothing => exact h
  | called key spec =>
    exact h.mono (Nat.le_refl _) id h.unopened (fun _ hr _ => reporters_called hr) (fun _ _ _ hh => .inl hh) id
  | absent hj hstage hnone => exact h.callQuiet hj rfl
  | lost hj hstage hp hclosed => exact (h.loses hj hstage hp hclosed hleaves).callQuiet hj rfl
  | claimed hj hstage hp hlive hreported hhooks => exact h.claims hj hp hlive
  | reused hj hstage hp hlive => exact h.callQuiet hj rfl
  | reported hj hstage => exact (h.report (mem_reporters_of_found hj hstage)).callQuiet hj rfl
  | refused hj hstage hblocked => exact h.callQuiet hj rfl
  | asked hj hstage hblocked => exact h.callQuiet hj rfl
  | joined hj hstage hdials => exact h.callQuiet hj rfl
  | started hj hstage hdials => exact (h.starts _).callQuiet hj rfl
  | heard hj hstage out => exact h.callQuiet hj rfl
  | expired hj hstage => exact h.callQuiet hj rfl
  | connected hi hstage hcancel => exact h.connects _ _
  | failed hi hstage => exact h.dialQuiet hi rfl rfl
  | stopped hi hstage => exact h.dialQuiet hi rfl rfl
  | @unadmitted i d c why hi hstage hblocked => exact (h.closesConn c).dialQuiet hi rfl rfl
  | admitted hi hstage hblocked =>
    refine h.dial hi (fun c hc => ?_) fun r hr => ?_
    · rw [Dial.opens, hstage]
      exact hc
    · cases hr
  | @superseded i d c now hi hstage => exact (h.closesConn c).dialQuiet hi rfl rfl
  | checked hi hstage =>
    refine h.dial hi (fun c hc => ?_) fun r hr => ?_
    · rw [Dial.opens, hstage]
      exact hc
    · cases hr
  | pooled hi hstage => exact h.pools hi hstage hleaves
  | told hi hstage hhooks => exact (h.report (mem_reporters_of_pooled hi hstage hhooks)).dialQuiet hi rfl rfl
  | untold hi hstage => exact h.dialQuiet hi rfl rfl
  | @left i d out hi hstage =>
    have hleft : Due conn { s with dials := Function.update s.dials d.key none } := ⟨h.below, h.closed, h.unopened, h.due⟩
    exact hleft.dialQuiet hi rfl rfl
  | cut c =>
    have hcancelled := h.cancelMore fun d => c.covers d.key
    exact ⟨h.below, h.closed, hcancelled.unopened, hcancelled.due⟩
  | emptied hj => exact ⟨h.below, h.closed, h.unopened, (h.empties hj hleaves).due⟩
  | returned hj => exact ⟨h.below, by simp [h.closed], h.unopened, h.due⟩
  | purged node => exact ⟨h.below, h.closed, h.unopened, (h.purges node hleaves).due⟩
  | @cancelled j node hj =>
    have hcancelled := h.cancelMore (staleDial node)
    exact ⟨h.below, h.closed, hcancelled.unopened, hcancelled.due⟩
  | broken k c => exact h.breaks hleaves
  | @closed c hc => exact h.closesConn c
  | fired hwatch hclosed => exact h.fires hw hwatch
  | blocked why => exact ⟨h.below, h.closed, h.unopened, h.due⟩
  | lifted => exact ⟨h.below, h.closed, h.unopened, h.due⟩

/-- A connection closes in the pool. -/
theorem Watched.due_of_closes (hw : Watched s) {k : PoolKey} (hh : s.holds k conn = true) : Due conn (step s (.closes conn)) := by
  obtain ⟨p, hp, hpc⟩ := holds_iff.mp hh
  have hbelow : conn < s.next := hpc ▸ hw.fresh k p hp
  have hstep : step s (.closes conn) = s.closeConn conn := if_pos hbelow
  rw [hstep]
  refine ⟨hbelow, Function.update_self .., fun d hd hopens => ?_, fun r hr heq => .inl ?_⟩
  · exact (hw.opens d hd conn hopens).2.1 k p hp hpc
  · obtain ⟨hkey, -⟩ := (hw.reporters r hr).2.2 k p hp (hpc.trans heq.symm)
    exact hkey ▸ hh

/-- A connection reported open that closed in the pool is told closed, or its watch tells it next. -/
theorem Due.told_once (hw : Watched s) (h : Due conn s) (hopened : conn ∈ s.opened) :
    s.told.count conn = 1 ∨
      ∃ w k, s.watches[w]? = some ⟨k, conn, false⟩ ∧ (step s (.fires w)).told.count conn = 1 := by
  obtain ⟨⟨k, c, fired⟩, hmem, rfl⟩ := hw.opened conn hopened
  by_cases htold : c ∈ s.told
  · exact .inl (List.count_eq_one_of_mem hw.nodup htold)
  · rcases h.due _ (mem_reporters_of_watch hmem) rfl with hh | ht
    · obtain ⟨p, hp, hpc⟩ := holds_iff.mp hh
      obtain ⟨w, hwatch⟩ := List.mem_iff_getElem?.mp hmem
      cases fired with
      | true => exact absurd hpc (hw.fired _ hmem rfl k p hp)
      | false =>
        refine .inr ⟨w, k, hwatch, ?_⟩
        have hstep : (step s (.fires w)).told = s.told ++ [c] := by
          simp only [step, hwatch]
          rw [if_pos h.closed]
          change (if s.holds k c then s.told ++ [c] else s.told) = _
          rw [if_pos hh]
        rw [hstep, List.count_append, List.count_eq_zero_of_not_mem htold, List.count_singleton_self]
    · exact absurd ht htold

end Due

/-- In every run: no dial starts under a live pooled connection, where no dial leaves one, and no purge adopts one, under the
key of a call between its looks; a dial that a returned close found in flight, and any dial while admission is blocked, pools
nothing, where none was past its select, or its read of the admission, then; and a connection reported open is told closed at
most once, and once if it closed in the pool, where only its watch takes it out then. -/
theorem pool_keeps_one_connection (moves : List Move) :
    (RunOk step (fun s m => dialsApart s m = true) Pool.new moves →
      ∀ before m after, moves = before ++ m :: after → ∀ d,
        (step (before.foldl step Pool.new) m).tasks = (before.foldl step Pool.new).tasks ++ [d] →
        (before.foldl step Pool.new).live d.key = false) ∧
    (RunOk step (fun s m => cutsClean s m = true) Pool.new moves →
      ∀ before i after, moves = before ++ .pools i :: after → ∀ d c,
        (before.foldl step Pool.new).tasks[i]? = some d → d.stage = .current c →
        (∀ cl ∈ (before.foldl step Pool.new).closes, cl.hasReturned = true → i ∉ cl.inFlight) ∧
        (before.foldl step Pool.new).blocked = none) ∧
    (moves.foldl step Pool.new).told.Nodup ∧
    (RunOk step (fun s m => leavesWatched s m = true) Pool.new moves →
      ∀ before conn after, moves = before ++ .closes conn :: after →
        (∃ k, (before.foldl step Pool.new).holds k conn = true) → conn ∈ (moves.foldl step Pool.new).opened →
        (moves.foldl step Pool.new).told.count conn = 1 ∨
          ∃ w k, (moves.foldl step Pool.new).watches[w]? = some ⟨k, conn, false⟩ ∧
            (step (moves.foldl step Pool.new) (.fires w)).told.count conn = 1) := by
  have hwatched : ∀ moves : List Move, Watched (moves.foldl step Pool.new) :=
    invariant_run (I := Watched) (fun _ m hs => watched_step hs m) watched_new
  refine ⟨fun hrun before m after hmoves d hd => ?_, fun hrun before i after hmoves d c hi hstage => ?_, (hwatched moves).nodup,
    fun hrun before conn after hmoves hpooled hopened => ?_⟩
  · subst hmoves
    obtain ⟨hapart, -⟩ := hrun.at (I := Apart) (fun s m hs hm => apart_step hs m hm) apart_new
    exact hapart.starts hd
  · subst hmoves
    obtain ⟨hcuts, -⟩ := hrun.at (I := Cuts) (fun s m hs hm => cuts_step hs m hm) cuts_new
    exact hcuts.pools hi hstage
  · subst hmoves
    obtain ⟨k, hk⟩ := hpooled
    have hdue := (hwatched before).due_of_closes hk
    rw [runOk_append] at hrun
    have hafter : Watched ((before ++ .closes conn :: after).foldl step Pool.new) ∧
        Due conn ((before ++ .closes conn :: after).foldl step Pool.new) := by
      rw [List.foldl_append, List.foldl_cons]
      refine hrun.2.2.invariant (I := fun s => Watched s ∧ Due conn s) (fun s m hs hm => ?_)
        ⟨watched_step (hwatched before) _, hdue⟩
      exact ⟨watched_step hs.1 m, due_step hs.1 hs.2 m hm⟩
    exact hafter.2.told_once hafter.1 hopened

def peerKey : PoolKey := ⟨none, "peer-1", some "birth-1"⟩

def peerSpec : DialSpec := ⟨"127.0.0.1:4500", true, true⟩

def peerNode : ResolvedNode := ⟨"peer-1", "birth-1", "127.0.0.1:4500"⟩

/-- A dial that connects, is admitted, is current, and pools its connection. -/
def dialMoves : List Move :=
  [.calls peerKey peerSpec, .looks 0, .asks 0, .dials 0, .connects 0, .admits 0, .checks 0 (some peerNode), .pools 0, .tells 0,
    .leaves 0]

/-- Two calls find no connection; the dial of one pools its own and leaves before the other looks at the dials. -/
def lateLook : List Move :=
  [.calls peerKey peerSpec, .calls peerKey peerSpec, .looks 1, .asks 1] ++ dialMoves.tail

/-- A close is called and returns with a dial past its select, which goes on. -/
def lateCut : List Move :=
  [.calls peerKey peerSpec, .looks 0, .asks 0, .dials 0, .connects 0, .cuts (.ofPeer "peer-1"), .empties 0, .returns 0,
    .admits 0, .checks 0 (some peerNode)]

/-- Admission is blocked with a dial past its read of it. -/
def lateBlock : List Move := dialMoves.take 7 ++ [.blocks "stopping"]

/-- A connection closes in the pool, and a call finds it closed before its watch does. -/
def lateWatch : List Move := dialMoves ++ [.closes 0, .calls peerKey peerSpec, .looks 1, .fires 0]

/-- A dial starts under a live connection; one enters the pool after the close, or the block, returned; and one closed in the
pool is never told closed. -/
theorem pool_races :
    ((step (lateLook.foldl step Pool.new) (.dials 1)).tasks.map Dial.key
        = (lateLook.foldl step Pool.new).tasks.map Dial.key ++ [peerKey] ∧
      (lateLook.foldl step Pool.new).live peerKey = true) ∧
    ((lateCut.foldl step Pool.new).closes.map (fun cl => (cl.hasReturned, cl.inFlight)) = [(true, [0])] ∧
      (lateCut.foldl step Pool.new).live peerKey = false ∧
      (step (lateCut.foldl step Pool.new) (.pools 0)).live peerKey = true) ∧
    ((lateBlock.foldl step Pool.new).blocked = some "stopping" ∧ (lateBlock.foldl step Pool.new).live peerKey = false ∧
      (step (lateBlock.foldl step Pool.new) (.pools 0)).live peerKey = true) ∧
    ((dialMoves.foldl step Pool.new).holds peerKey 0 = true ∧ (lateWatch.foldl step Pool.new).opened = [0] ∧
      (lateWatch.foldl step Pool.new).watches.map (fun w => (w.conn, w.fired)) = [(0, true)] ∧
      (lateWatch.foldl step Pool.new).told = []) := by
  decide +kernel

/-- A connection is pooled and closes, its watch tells it, and the peer is dialled afresh; the close that follows finds the
dial in its select. -/
def watchedMoves : List Move :=
  dialMoves ++ [.closes 0, .fires 0, .calls peerKey peerSpec, .looks 1, .asks 1, .dials 1, .cuts (.ofPeer "peer-1"),
    .empties 0, .returns 0, .stops 1, .leaves 1, .blocks "stopping"]

theorem watchedMoves_keep :
    (watchedMoves.foldl step Pool.new).told.Nodup ∧ (watchedMoves.foldl step Pool.new).told.count 0 = 1 ∧
    ((dialMoves.take 3).foldl step Pool.new).live peerKey = false ∧ ((dialMoves.take 7).foldl step Pool.new).blocked = none := by
  have hapart : RunOk step (fun s m => dialsApart s m = true) Pool.new watchedMoves := by decide +kernel
  have hclean : RunOk step (fun s m => cutsClean s m = true) Pool.new watchedMoves := by decide +kernel
  have hleaves : RunOk step (fun s m => leavesWatched s m = true) Pool.new watchedMoves := by decide +kernel
  obtain ⟨hstarts, hpools, hnodup, htold⟩ := pool_keeps_one_connection watchedMoves
  have hdials : watchedMoves = dialMoves.take 3 ++ .dials 0 :: watchedMoves.drop 4 := rfl
  have hinserts : watchedMoves = dialMoves.take 7 ++ .pools 0 :: watchedMoves.drop 8 := rfl
  have hcloses : watchedMoves = dialMoves ++ .closes 0 :: watchedMoves.drop 11 := rfl
  have hdial : (step ((dialMoves.take 3).foldl step Pool.new) (.dials 0)).tasks =
      ((dialMoves.take 3).foldl step Pool.new).tasks ++ [⟨peerKey, peerSpec, false, .connecting⟩] := rfl
  have hcurrent : ((dialMoves.take 7).foldl step Pool.new).tasks[0]? = some ⟨peerKey, peerSpec, false, .current 0⟩ := rfl
  have hdead := hstarts hapart _ _ _ hdials _ hdial
  have hunblocked := (hpools hclean _ _ _ hinserts _ 0 hcurrent rfl).2
  refine ⟨hnodup, ?_, hdead, hunblocked⟩
  have hheld : (dialMoves.foldl step Pool.new).holds peerKey 0 = true := by decide +kernel
  have hopened : 0 ∈ (watchedMoves.foldl step Pool.new).opened := by decide +kernel
  rcases htold hleaves _ _ _ hcloses ⟨peerKey, hheld⟩ hopened with hcount | ⟨w, k, hw, -⟩
  · exact hcount
  · have hwatches : ∀ v ∈ (watchedMoves.foldl step Pool.new).watches, v.fired = true := by decide +kernel
    exact absurd (hwatches _ (List.mem_of_getElem? hw)) (by simp)

end DistributedMesh.Pooling
