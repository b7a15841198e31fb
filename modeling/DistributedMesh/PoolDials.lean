import DistributedMesh.ConnectionPool

namespace DistributedMesh.Pooling

open GuardedRuns KeyedMaps Pool

section Purge

variable {node : ResolvedNode} {closed : Nat → Bool} {conns : Conns} {k q : PoolKey}

/-- What a birthless connection leaves to the node's birth. -/
def adoptedOf (node : ResolvedNode) (closed : Nat → Bool) (p : Option Pooled) : Option Pooled :=
  p.filter fun p => p.addr == node.transportAddr && !closed p.conn

theorem birthless_eq_iff (hk : k.incarnation = none) {v : String} :
    q.incarnation = some v ∧ q.birthless = k ↔ q = { k with incarnation := some v } := by
  constructor
  · rintro ⟨hq, rfl⟩
    cases q
    cases hq
    rfl
  · rintro rfl
    cases k
    cases hk
    exact ⟨rfl, rfl⟩

theorem lookup_purgeKey (node : ResolvedNode) (closed : Nat → Bool) (conns : Conns) (k q : PoolKey) :
    (purgeKey node closed conns k).lookup q =
      if q.incarnation = some node.incarnation then
        if q.birthless = k then (conns.lookup q).or (adoptedOf node closed (conns.lookup k)) else conns.lookup q
      else if q = k then none else conns.lookup q := by
  unfold purgeKey
  split
  next hk =>
    have hne : q.incarnation = some node.incarnation → q ≠ k := by
      rintro hq rfl
      rw [hk] at hq
      cases hq
    split
    next hnone =>
      rw [hnone]
      by_cases hq : q = k
      · rw [hq, hnone]
        simp [adoptedOf]
      · simp [adoptedOf, hq]
    next p hp =>
      have herase := lookup_erase_eq conns k
      rw [hp, adoptedOf, Option.filter_some]
      split
      next hadopt =>
        rw [lookup_orInsert, herase, herase]
        by_cases hq : q.incarnation = some node.incarnation
        · rw [if_neg (hne hq), if_pos hq]
          by_cases hb : q.birthless = k
          · obtain rfl := (birthless_eq_iff hk).mp ⟨hq, hb⟩
            rw [if_pos rfl, if_pos hb, if_neg (hne hq)]
          · have hneq : q ≠ { k with incarnation := some node.incarnation } :=
              fun heq => hb ((birthless_eq_iff hk).mpr heq).2
            rw [if_neg hneq, if_neg hb]
        · have hneq : q ≠ { k with incarnation := some node.incarnation } :=
            fun heq => hq ((birthless_eq_iff hk).mpr heq).1
          rw [if_neg hneq, if_neg hq]
      next =>
        rw [herase]
        by_cases hq : q.incarnation = some node.incarnation
        · rw [if_neg (hne hq), if_pos hq, Option.or_none, ite_self]
        · rw [if_neg hq]
  next held hk =>
    have hb : q.birthless ≠ k := by
      rintro rfl
      cases hk
    rw [if_neg hb]
    split
    next heq =>
      by_cases hq : q = k
      · rw [hq, hk, heq, if_pos rfl]
      · rw [if_neg hq, ite_self]
    next hheld =>
      rw [lookup_erase_eq]
      by_cases hq : q = k
      · rw [if_pos hq, if_neg]
        rw [hq, hk]
        exact fun h => hheld (Option.some.inj h)
      · rw [if_neg hq, ite_self]

theorem lookup_foldl_purgeKey (node : ResolvedNode) (closed : Nat → Bool) (ks : List PoolKey) (conns : Conns) (q : PoolKey) :
    (ks.foldl (purgeKey node closed) conns).lookup q =
      if q.incarnation = some node.incarnation then
        if q.birthless ∈ ks then (conns.lookup q).or (adoptedOf node closed (conns.lookup q.birthless)) else conns.lookup q
      else if q ∈ ks then none else conns.lookup q := by
  induction ks generalizing conns with
  | nil => simp
  | cons k ks ih =>
    have hbirthless : q.birthless.incarnation ≠ some node.incarnation := nofun
    rw [List.foldl_cons, ih, lookup_purgeKey, lookup_purgeKey, if_neg hbirthless]
    by_cases hq : q.incarnation = some node.incarnation
    · simp only [if_pos hq, List.mem_cons]
      by_cases hk : q.birthless = k
      · subst hk
        simp [adoptedOf]
      · simp [hk]
    · simp only [if_neg hq, List.mem_cons]
      by_cases hk : q = k
      · simp [hk]
      · simp [hk]

/-- What is pooled after a purge: the node's birth keeps its connection or adopts the birthless one, the peer's others are
gone. -/
theorem lookup_purgeConns (node : ResolvedNode) (closed : Nat → Bool) (conns : Conns) (q : PoolKey) :
    (purgeConns node closed conns).lookup q =
      if q.peer = node.endpointId then
        if q.incarnation = some node.incarnation then
          (conns.lookup q).or (adoptedOf node closed (conns.lookup q.birthless))
        else none
      else conns.lookup q := by
  have hmem : ∀ k, k ∈ conns.keys.filter (fun k => k.peer == node.endpointId) ↔ k ∈ conns ∧ k.peer = node.endpointId := by
    intro k
    rw [List.mem_filter, ← AList.mem_keys, beq_iff_eq]
  have hbirthless : q.birthless.peer = q.peer := rfl
  unfold purgeConns
  rw [lookup_foldl_purgeKey]
  simp only [hmem, hbirthless]
  by_cases hpeer : q.peer = node.endpointId
  · simp only [hpeer, and_true, if_true]
    by_cases hq : q.incarnation = some node.incarnation
    · simp only [if_pos hq]
      split
      next => rfl
      next hnot =>
        rw [AList.lookup_eq_none.mpr hnot]
        simp [adoptedOf]
    · simp only [if_neg hq]
      split
      next => rfl
      next hnot => exact AList.lookup_eq_none.mpr hnot
  · simp [hpeer]

end Purge

/-- The purge moves a birthless connection onto the key. -/
def Pool.adopts (s : Pool) (node : ResolvedNode) (k : PoolKey) : Bool :=
  k.peer == node.endpointId && k.incarnation == some node.incarnation && (s.conns.lookup k).isNone &&
    (adoptedOf node s.closed (s.conns.lookup k.birthless)).isSome

/-- A dial does not leave its connection pooled, and a purge adopts none, under the key of a call that found none there and
has not looked at the dials. -/
def dialsApart (s : Pool) : Move → Bool
  | .leaves i =>
    match s.tasks[i]? with
    | some ⟨k, _, _, .ending _⟩ => !(s.live k && s.calls.any fun c => c.missing && c.key == k)
    | _ => true
  | .purges node => s.calls.all fun c => !(c.missing && (s.dials c.key).isNone && s.adopts node c.key)
  | _ => true

/-- A dial's connection admitted and not in the pool. -/
def Dial.passed (d : Dial) : Bool :=
  match d.stage with
  | .admitted _ => true
  | .current _ => true
  | _ => false

/-- No dial that a close found in flight is past its select when the close returns, and none is between its read of the
admission and the pool when admission is blocked. -/
def cutsClean (s : Pool) : Move → Bool
  | .returns j =>
    match s.closes[j]? with
    | some ⟨_, inFlight, .emptied _⟩ => inFlight.all fun i => (s.tasks[i]?.bind Dial.opens).isNone
    | _ => true
  | .blocks _ => s.tasks.all fun d => !d.passed
  | _ => true

section Apart

/-- The dials in flight are those of an earlier list, on the same keys. -/
def Follows (tasks' tasks : List Dial) : Prop :=
  ∀ (i : Nat) (d : Dial), tasks'[i]? = some d → d.inFlight = true → ∃ d₀ : Dial, tasks[i]? = some d₀ ∧ d₀.inFlight = true ∧ d₀.key = d.key

/-- Every dial in flight is the one of its key, and a key that a call found no connection under has none, or a dial in
flight. -/
structure Apart (s : Pool) : Prop where
  registered : ∀ i d, s.tasks[i]? = some d → d.inFlight = true → s.dials d.key = some i
  covered : ∀ c ∈ s.calls, c.missing = true → s.live c.key = true → s.dials c.key ≠ none

variable {s s' : Pool} {i j : Nat} {d : Dial} {c : Call}

theorem follows_refl (tasks : List Dial) : Follows tasks tasks := fun _ d hi hd => ⟨d, hi, hd, rfl⟩

theorem follows_set {tasks : List Dial} (hi : tasks[i]? = some d) (hd : d.inFlight = true) (stage : DialStage) :
    Follows (tasks.set i { d with stage := stage }) tasks := by
  intro l e hl he
  obtain ⟨rfl, rfl⟩ | ⟨-, hl⟩ := getElem?_of_set hl
  · exact ⟨d, hi, hd, rfl⟩
  · exact ⟨e, hl, he, rfl⟩

/-- A dial that a cancel reached, or did not. -/
theorem of_getElem?_cancelDials {p : Dial → Bool} (hi : (s.cancelDials p)[i]? = some d) :
    ∃ d₀, s.tasks[i]? = some d₀ ∧ d = { d₀ with cancel := d₀.cancel || (p d₀ && s.dials d₀.key == some i) } := by
  unfold cancelDials at hi
  rw [List.getElem?_mapIdx] at hi
  obtain ⟨d₀, hd₀, rfl⟩ := Option.map_eq_some_iff.mp hi
  exact ⟨d₀, hd₀, rfl⟩

theorem follows_cancelDials (s : Pool) (p : Dial → Bool) : Follows (s.cancelDials p) s.tasks := by
  intro i d hi hd
  obtain ⟨d₀, hd₀, rfl⟩ := of_getElem?_cancelDials hi
  exact ⟨d₀, hd₀, hd, rfl⟩

theorem Apart.mono (h : Apart s) (htasks : Follows s'.tasks s.tasks) (hdials : s'.dials = s.dials)
    (hcalls : ∀ c ∈ s'.calls, c.missing = true → s'.live c.key = true → ∃ c₀ ∈ s.calls, c₀.missing = true ∧ c₀.key = c.key)
    (hlive : ∀ k, s'.live k = true → s.live k = true) : Apart s' := by
  refine ⟨fun i d hi hd => ?_, fun c hc hm hl => ?_⟩
  · obtain ⟨d₀, hi₀, hd₀, hkey⟩ := htasks i d hi hd
    rw [hdials, ← hkey]
    exact h.registered i d₀ hi₀ hd₀
  · obtain ⟨c₀, hc₀, hm₀, hkey⟩ := hcalls c hc hm hl
    rw [hdials, ← hkey]
    exact h.covered c₀ hc₀ hm₀ (hkey ▸ hlive c.key hl)

/-- A dial goes on in flight. -/
theorem Apart.dial (h : Apart s) (hi : s.tasks[i]? = some d) (hd : d.inFlight = true) {stage : DialStage}
    (htasks : s'.tasks = s.tasks.set i { d with stage := stage }) (hdials : s'.dials = s.dials) (hcalls : s'.calls = s.calls)
    (hlive : ∀ k, s'.live k = true → s.live k = true) : Apart s' := by
  refine h.mono (htasks ▸ follows_set hi hd stage) hdials (fun c hc hm _ => ?_) hlive
  exact ⟨c, hcalls ▸ hc, hm, rfl⟩

/-- A call goes on, and was missing before if it is. -/
theorem Apart.call (h : Apart s) (hj : s.calls[j]? = some c) {stage : CallStage}
    (hcalls : s'.calls = s.calls.set j { c with stage := stage })
    (hmissing : ({ c with stage := stage } : Call).missing = true → s'.live c.key = true → c.missing = true)
    (htasks : s'.tasks = s.tasks) (hdials : s'.dials = s.dials) (hlive : ∀ k, s'.live k = true → s.live k = true) :
    Apart s' := by
  refine h.mono (htasks ▸ follows_refl _) hdials (fun c' hc' hm hl => ?_) hlive
  rw [hcalls] at hc'
  rcases List.mem_or_eq_of_mem_set hc' with hc' | rfl
  · exact ⟨c', hc', hm, rfl⟩
  · exact ⟨c, List.mem_of_getElem? hj, hmissing hm hl, rfl⟩

theorem live_iff {k : PoolKey} : s.live k = true ↔ ∃ p, s.conns.lookup k = some p ∧ s.closed p.conn = false := by
  unfold live
  cases s.conns.lookup k with
  | none => simp
  | some p => simp

/-- Fewer connections pooled, and more closed, leave fewer live. -/
theorem live_mono (hconns : ∀ k p, s'.conns.lookup k = some p → s.conns.lookup k = some p)
    (hclosed : ∀ c, s'.closed c = false → s.closed c = false) (k : PoolKey) (h : s'.live k = true) : s.live k = true := by
  obtain ⟨p, hp, hc⟩ := live_iff.mp h
  exact live_iff.mpr ⟨p, hconns k p hp, hclosed p.conn hc⟩

theorem lookup_removePooled {k q : PoolKey} {conn : Nat} {p : Pooled} (h : (s.removePooled k conn).lookup q = some p) :
    s.conns.lookup q = some p := by
  unfold removePooled at h
  split at h
  next => exact (of_lookup_erase h).2
  next => exact h

theorem of_closeConn {conn c : Nat} (h : (s.closeConn conn).closed c = false) : s.closed c = false := by
  change Function.update s.closed conn true c = false at h
  rw [Function.update_apply] at h
  split at h
  next => cases h
  next => exact h

theorem inFlight_of_stage {stage : DialStage} (h : d.stage = stage) (hstage : ∀ out, stage ≠ .ended out) :
    d.inFlight = true := by
  unfold Dial.inFlight
  split
  next out hout => exact absurd (h.symm.trans hout) (hstage out)
  next => rfl

theorem Call.missing_of_admitted (h : c.stage = .admitted) : c.missing = true := by
  unfold Call.missing
  rw [h]

theorem Call.missing_of_missed (h : c.stage = .missed) : c.missing = true := by
  unfold Call.missing
  rw [h]

/-- A dial starts on a key that none is in flight on. -/
theorem Apart.start (h : Apart s) (j : Nat) (hdials : s.dials c.key = none) :
    Apart ((s.start c).callGoes j c (.waiting s.tasks.length)) := by
  refine ⟨fun i d hi hd => ?_, fun c' hc' hm hl => ?_⟩
  · change (s.tasks ++ [c.dial])[i]? = some d at hi
    change Function.update s.dials c.key (some s.tasks.length) d.key = some i
    rw [List.getElem?_append] at hi
    split at hi
    next hlt =>
      have hreg := h.registered i d hi hd
      have hne : d.key ≠ c.key := by
        intro heq
        rw [heq, hdials] at hreg
        cases hreg
      rw [Function.update_of_ne hne]
      exact hreg
    next hge =>
      obtain ⟨hlt, rfl⟩ := List.getElem?_eq_some_iff.mp hi
      rw [List.length_singleton] at hlt
      have hlen : i = s.tasks.length := by omega
      simp [Call.dial, hlen]
  · change Function.update s.dials c.key (some s.tasks.length) c'.key ≠ none
    change c' ∈ s.calls.set j _ at hc'
    rcases List.mem_or_eq_of_mem_set hc' with hc' | rfl
    · by_cases hkey : c'.key = c.key
      · rw [hkey, Function.update_self]
        nofun
      · rw [Function.update_of_ne hkey]
        exact h.covered c' hc' hm hl
    · cases hm

/-- A connection enters the pool under the key of a dial in flight. -/
theorem Apart.pools (h : Apart s) (hi : s.tasks[i]? = some d) (hd : d.inFlight = true) (p : Pooled) (stage : DialStage) :
    Apart ({ s with conns := s.conns.insert d.key p }.dialGoes i d stage) := by
  have hgoes : Apart (s.dialGoes i d stage) := h.dial hi hd rfl rfl rfl fun _ hl => hl
  refine ⟨hgoes.registered, fun c hc hm hl => ?_⟩
  change s.dials c.key ≠ none
  by_cases hkey : c.key = d.key
  · rw [hkey, h.registered i d hi hd]
    nofun
  · refine h.covered c hc hm ?_
    obtain ⟨p', hp', hclosed⟩ := live_iff.mp hl
    obtain ⟨heq, -⟩ | ⟨-, hp'⟩ := of_lookup_insert hp'
    · exact absurd heq hkey
    · exact live_iff.mpr ⟨p', hp', hclosed⟩

/-- A dial leaves, with no call between its look at the pool and its look at the dials, or no live connection, there. -/
theorem Apart.leaves (h : Apart s) (hi : s.tasks[i]? = some d) {out : Except DialError Nat} (hstage : d.stage = .ending out)
    (hapart : dialsApart s (.leaves i) = true) :
    Apart ({ s with dials := Function.update s.dials d.key none }.dialGoes i d (.ended out)) := by
  refine ⟨fun l e hl he => ?_, fun c hc hm hl => ?_⟩
  · change (s.tasks.set i _)[l]? = some e at hl
    change Function.update s.dials d.key none e.key = some l
    obtain ⟨-, rfl⟩ | ⟨hne, hl⟩ := getElem?_of_set hl
    · cases he
    · have hreg := h.registered l e hl he
      have hkey : e.key ≠ d.key := by
        intro heq
        rw [heq, h.registered i d hi (inFlight_of_stage hstage nofun)] at hreg
        exact hne (Option.some.inj hreg).symm
      rw [Function.update_of_ne hkey]
      exact hreg
  · change s.live c.key = true at hl
    change Function.update s.dials d.key none c.key ≠ none
    have hkey : c.key ≠ d.key := by
      intro heq
      obtain ⟨k, spec, cancel, stage⟩ := d
      cases hstage
      change c.key = k at heq
      have hnone : s.live k = false ∨ ∀ x ∈ s.calls, x.missing = true → ¬ x.key = k := by
        simpa [dialsApart, hi] using hapart
      rcases hnone with hdead | hnone
      · rw [heq, hdead] at hl
        cases hl
      · exact hnone c hc hm heq
    rw [Function.update_of_ne hkey]
    exact h.covered c hc hm hl

/-- A purge adopts no connection under the key of such a call. -/
theorem Apart.purges (h : Apart s) (node : ResolvedNode) (hapart : dialsApart s (.purges node) = true) :
    Apart { s with conns := purgeConns node s.closed s.conns, purging := s.purging ++ [node] } := by
  refine ⟨h.registered, fun c hc hm hl => ?_⟩
  change s.dials c.key ≠ none
  intro hnone
  obtain ⟨p, hp, hclosed⟩ := live_iff.mp hl
  have hadopt : s.adopts node c.key = false := by
    have hall := List.all_eq_true.mp hapart c hc
    simpa [hm, hnone] using hall
  change (purgeConns node s.closed s.conns).lookup c.key = some p at hp
  rw [lookup_purgeConns] at hp
  have hpooled : s.conns.lookup c.key = some p := by
    split at hp
    next hpeer =>
      split at hp
      next hbirth =>
        cases hk : s.conns.lookup c.key with
        | some p' => simpa [hk] using hp
        | none =>
          rw [hk, Option.none_or] at hp
          unfold adopts at hadopt
          rw [hpeer, hbirth, hk, hp] at hadopt
          simp at hadopt
      next => cases hp
    next => exact hp
  exact h.covered c hc hm (live_iff.mpr ⟨p, hpooled, hclosed⟩) hnone

theorem apart_step (h : Apart s) (m : Move) (hapart : dialsApart s m = true) : Apart (step s m) := by
  have hdoes := step_does s m
  generalize step s m = s' at hdoes ⊢
  have hsame : ∀ k, s.live k = true → s.live k = true := fun _ hl => hl
  cases hdoes with
  | nothing => exact h
  | called key spec =>
    refine h.mono (follows_refl _) rfl (fun c hc hm _ => ?_) hsame
    rcases List.mem_append.mp hc with hc | hc
    · exact ⟨c, hc, hm, rfl⟩
    · rw [List.mem_singleton.mp hc] at hm
      cases hm
  | @absent j c hj hstage hnone =>
    refine h.call hj rfl (fun _ hl => ?_) rfl rfl hsame
    obtain ⟨p, hp, -⟩ := live_iff.mp hl
    rw [show (s.callGoes j c .missed).conns.lookup c.key = s.conns.lookup c.key from rfl, hnone] at hp
    cases hp
  | @lost j c p hj hstage hp hclosed =>
    refine h.call hj rfl (fun _ hl => ?_) rfl rfl (live_mono (fun _ _ hk => (of_lookup_erase hk).2) fun _ hc => hc)
    obtain ⟨p, hp, -⟩ := live_iff.mp hl
    change (s.conns.erase c.key).lookup c.key = some p at hp
    rw [AList.lookup_erase] at hp
    cases hp
  | @claimed j c p hj hstage hp hlive hreported hhooks =>
    refine h.call hj rfl nofun rfl rfl fun k hl => ?_
    obtain ⟨p', hp', hclosed⟩ := live_iff.mp hl
    obtain ⟨rfl, -⟩ | ⟨-, hp'⟩ := of_lookup_insert hp'
    · exact live_iff.mpr ⟨p, hp, hlive⟩
    · exact live_iff.mpr ⟨p', hp', hclosed⟩
  | reused hj hstage hp hlive => exact h.call hj rfl nofun rfl rfl hsame
  | reported hj hstage => exact h.call hj rfl nofun rfl rfl hsame
  | refused hj hstage hblocked => exact h.call hj rfl nofun rfl rfl hsame
  | asked hj hstage hblocked => exact h.call hj rfl (fun _ _ => Call.missing_of_missed hstage) rfl rfl hsame
  | joined hj hstage hdials => exact h.call hj rfl nofun rfl rfl hsame
  | started hj hstage hdials => exact h.start _ hdials
  | heard hj hstage out => exact h.call hj rfl nofun rfl rfl hsame
  | expired hj hstage => exact h.call hj rfl nofun rfl rfl hsame
  | connected hi hstage hcancel => exact h.dial hi (inFlight_of_stage hstage nofun) rfl rfl rfl hsame
  | failed hi hstage => exact h.dial hi (inFlight_of_stage hstage nofun) rfl rfl rfl hsame
  | stopped hi hstage => exact h.dial hi (inFlight_of_stage hstage nofun) rfl rfl rfl hsame
  | unadmitted hi hstage hblocked =>
    exact h.dial hi (inFlight_of_stage hstage nofun) rfl rfl rfl (live_mono (fun _ _ hp => hp) fun _ hc => of_closeConn hc)
  | admitted hi hstage hblocked => exact h.dial hi (inFlight_of_stage hstage nofun) rfl rfl rfl hsame
  | superseded hi hstage =>
    exact h.dial hi (inFlight_of_stage hstage nofun) rfl rfl rfl (live_mono (fun _ _ hp => hp) fun _ hc => of_closeConn hc)
  | checked hi hstage => exact h.dial hi (inFlight_of_stage hstage nofun) rfl rfl rfl hsame
  | pooled hi hstage => exact h.pools hi (inFlight_of_stage hstage nofun) _ _
  | told hi hstage hhooks => exact h.dial hi (inFlight_of_stage hstage nofun) rfl rfl rfl hsame
  | untold hi hstage => exact h.dial hi (inFlight_of_stage hstage nofun) rfl rfl rfl hsame
  | left hi hstage => exact h.leaves hi hstage hapart
  | cut c => exact h.mono (follows_cancelDials s _) rfl (fun c hc hm _ => ⟨c, hc, hm, rfl⟩) hsame
  | @emptied j c inFlight hj =>
    exact h.mono (follows_refl _) rfl (fun c hc hm _ => ⟨c, hc, hm, rfl⟩)
      (live_mono (fun _ _ hp => (of_lookup_filterKeys hp).2) fun _ hc => hc)
  | returned hj =>
    refine h.mono (follows_refl _) rfl (fun c hc hm _ => ⟨c, hc, hm, rfl⟩) (live_mono (fun _ _ hp => hp) fun conn hc => ?_)
    exact (Bool.or_eq_false_iff.mp hc).1
  | purged node => exact h.purges node hapart
  | cancelled hj => exact h.mono (follows_cancelDials s _) rfl (fun c hc hm _ => ⟨c, hc, hm, rfl⟩) hsame
  | broken k c =>
    exact h.mono (follows_refl _) rfl (fun c hc hm _ => ⟨c, hc, hm, rfl⟩)
      (live_mono (fun _ _ hp => lookup_removePooled hp) fun _ hc => hc)
  | closed hc =>
    exact h.mono (follows_refl _) rfl (fun c hc hm _ => ⟨c, hc, hm, rfl⟩)
      (live_mono (fun _ _ hp => hp) fun _ hc => of_closeConn hc)
  | fired hw hclosed =>
    exact h.mono (follows_refl _) rfl (fun c hc hm _ => ⟨c, hc, hm, rfl⟩)
      (live_mono (fun _ _ hp => lookup_removePooled hp) fun _ hc => hc)
  | blocked why => exact ⟨h.registered, h.covered⟩
  | lifted => exact ⟨h.registered, h.covered⟩

theorem apart_new : Apart Pool.new := ⟨fun _ _ hi => (by cases hi), List.forall_mem_nil _⟩

/-- A dial starts under no live connection. -/
theorem Apart.starts (h : Apart s) {m : Move} (hm : (step s m).tasks = s.tasks ++ [d]) : s.live d.key = false := by
  have hdoes := step_does s m
  generalize step s m = s' at hdoes hm
  have hlen := congrArg List.length hm
  rw [List.length_append, List.length_singleton] at hlen
  cases hdoes
  case started j c hj hstage hdials =>
    change s.tasks ++ [c.dial] = s.tasks ++ [d] at hm
    obtain rfl := List.singleton_injective (List.append_cancel_left hm)
    by_contra hl
    have hl := Bool.eq_true_of_not_eq_false hl
    exact h.covered c (List.mem_of_getElem? hj) (Call.missing_of_admitted hstage) hl hdials
  all_goals
    exfalso
    simp [dialGoes, callGoes, closeConn, report, cancelDials] at hlen

end Apart

section Cuts

variable {s s' : Pool} {i j : Nat} {d : Dial}

def Close.hasReturned (c : Close) : Bool :=
  match c.stage with
  | .returned => true
  | _ => false

/-- A dial that a close found in flight is cancelled, and past its select no more once the close returned. -/
structure Cuts (s : Pool) : Prop where
  cancelled : ∀ cl ∈ s.closes, ∀ i ∈ cl.inFlight, ∃ d, s.tasks[i]? = some d ∧ d.cancel = true ∧
    (cl.hasReturned = true → d.opens = none)
  blocked : s.blocked ≠ none → ∀ d ∈ s.tasks, d.passed = false

/-- The dials go on: a cancelled one stays so, and is past its select, or past its admission, only if it was. -/
theorem Cuts.mono (h : Cuts s) (hcloses : s'.closes = s.closes) (hblocked : s'.blocked ≠ none → s.blocked ≠ none)
    (htasks : ∀ (i : Nat) (d : Dial), s.tasks[i]? = some d → d.cancel = true →
      ∃ d', s'.tasks[i]? = some d' ∧ d'.cancel = true ∧ (d.opens = none → d'.opens = none))
    (hpassed : s'.blocked ≠ none → ∀ d' ∈ s'.tasks, d'.passed = true → ∃ d ∈ s.tasks, d.passed = true) : Cuts s' := by
  refine ⟨fun cl hcl i hi => ?_, fun hb d' hd' => ?_⟩
  · obtain ⟨d, hd, hcancel, hopens⟩ := h.cancelled cl (hcloses ▸ hcl) i hi
    obtain ⟨d', hd', hcancel', hopens'⟩ := htasks i d hd hcancel
    exact ⟨d', hd', hcancel', fun hr => hopens' (hopens hr)⟩
  · by_contra hp
    obtain ⟨d, hd, hpass⟩ := hpassed hb d' hd' (Bool.eq_true_of_not_eq_false hp)
    rw [h.blocked (hblocked hb) d hd] at hpass
    cases hpass

/-- Nothing of the dials, the closes or the admission changes. -/
theorem Cuts.same (h : Cuts s) (hcloses : s'.closes = s.closes) (hblocked : s'.blocked = s.blocked)
    (htasks : s'.tasks = s.tasks) : Cuts s' :=
  h.mono hcloses (hblocked ▸ id) (fun _ d hd hc => ⟨d, htasks ▸ hd, hc, id⟩) fun _ d hd hp => ⟨d, htasks ▸ hd, hp⟩

/-- One dial goes on. -/
theorem Cuts.dial (h : Cuts s) (hi : s.tasks[i]? = some d) {stage : DialStage}
    (htasks : s'.tasks = s.tasks.set i { d with stage := stage }) (hcloses : s'.closes = s.closes)
    (hblocked : s'.blocked = s.blocked)
    (hopens : d.cancel = true → d.opens = none → ({ d with stage := stage } : Dial).opens = none)
    (hpassed : s.blocked ≠ none → ({ d with stage := stage } : Dial).passed = true → d.passed = true) : Cuts s' := by
  refine h.mono hcloses (hblocked ▸ id) (fun l e hl hc => ?_) fun hb e he hp => ?_
  · rw [htasks]
    by_cases hne : l = i
    · subst hne
      obtain rfl := Option.some.inj (hi.symm.trans hl)
      refine ⟨{ d with stage := stage }, ?_, hc, hopens hc⟩
      rw [List.getElem?_set_self (List.getElem?_eq_some_iff.mp hi).1]
    · refine ⟨e, ?_, hc, id⟩
      rw [List.getElem?_set_ne (Ne.symm hne)]
      exact hl
  · rw [htasks] at he
    rcases List.mem_or_eq_of_mem_set he with he | rfl
    · exact ⟨e, he, hp⟩
    · exact ⟨d, List.mem_of_getElem? hi, hpassed (hblocked ▸ hb) hp⟩

/-- A dial that ends, or is in the pool. -/
theorem Cuts.ends (h : Cuts s) (hi : s.tasks[i]? = some d) {stage : DialStage}
    (htasks : s'.tasks = s.tasks.set i { d with stage := stage }) (hcloses : s'.closes = s.closes)
    (hblocked : s'.blocked = s.blocked) (hopens : ({ d with stage := stage } : Dial).opens = none)
    (hpassed : ({ d with stage := stage } : Dial).passed = false) : Cuts s' := by
  refine h.dial hi htasks hcloses hblocked (fun _ _ => hopens) fun _ hp => ?_
  rw [hpassed] at hp
  cases hp

theorem Cuts.cancelMore (h : Cuts s) (p : Dial → Bool) : Cuts { s with tasks := s.cancelDials p } := by
  refine h.mono rfl id (fun i d hd hc => ?_) fun _ d' hd' hp => ?_
  · refine ⟨{ d with cancel := d.cancel || (p d && s.dials d.key == some i) }, ?_, by simp [hc], id⟩
    change (s.cancelDials p)[i]? = _
    unfold cancelDials
    rw [List.getElem?_mapIdx, hd]
    rfl
  · obtain ⟨i, hi⟩ := List.mem_iff_getElem?.mp hd'
    obtain ⟨d, hd, rfl⟩ := of_getElem?_cancelDials hi
    exact ⟨d, List.mem_of_getElem? hd, hp⟩

theorem mem_dialsOf {c : CloseCall} (h : i ∈ s.dialsOf c) :
    ∃ d, s.tasks[i]? = some d ∧ c.covers d.key = true ∧ s.dials d.key = some i := by
  have hfilter := (List.mem_filter.mp h).2
  cases hi : s.tasks[i]? with
  | none => simp [hi] at hfilter
  | some d => exact ⟨d, rfl, by simpa [hi] using hfilter⟩

/-- A close begins: the dials it found in flight are cancelled. -/
theorem Cuts.cut (h : Cuts s) (c : CloseCall) : Cuts
    { s with tasks := s.cancelDials fun d => c.covers d.key, closes := s.closes ++ [⟨c, s.dialsOf c, .cancelled⟩] } := by
  have hmore := h.cancelMore fun d => c.covers d.key
  refine ⟨fun cl hcl i hi => ?_, hmore.blocked⟩
  rcases List.mem_append.mp hcl with hcl | hcl
  · exact hmore.cancelled cl hcl i hi
  · obtain rfl := List.mem_singleton.mp hcl
    obtain ⟨d, hd, hcovers, hdials⟩ := mem_dialsOf hi
    refine ⟨{ d with cancel := d.cancel || (c.covers d.key && s.dials d.key == some i) }, ?_, by simp [hcovers, hdials], nofun⟩
    change (s.cancelDials _)[i]? = _
    unfold cancelDials
    rw [List.getElem?_mapIdx, hd]
    rfl

/-- A close goes on, and returns with none of the dials it found past its select. -/
theorem Cuts.close (h : Cuts s) {c : CloseCall} {inFlight : List Nat} {was stage : CloseStage}
    (hj : s.closes[j]? = some ⟨c, inFlight, was⟩) (hcloses : s'.closes = s.closes.set j ⟨c, inFlight, stage⟩)
    (hblocked : s'.blocked = s.blocked) (htasks : s'.tasks = s.tasks)
    (hclean : (⟨c, inFlight, stage⟩ : Close).hasReturned = true → ∀ i ∈ inFlight, s.tasks[i]?.bind Dial.opens = none) :
    Cuts s' := by
  refine ⟨fun cl hcl i hi => ?_, hblocked ▸ htasks ▸ h.blocked⟩
  rw [htasks]
  rw [hcloses] at hcl
  rcases List.mem_or_eq_of_mem_set hcl with hcl | rfl
  · exact h.cancelled cl hcl i hi
  · obtain ⟨d, hd, hcancel, -⟩ := h.cancelled _ (List.mem_of_getElem? hj) i hi
    refine ⟨d, hd, hcancel, fun hr => ?_⟩
    have hnone := hclean hr i hi
    rwa [hd] at hnone

theorem cuts_step (h : Cuts s) (m : Move) (hclean : cutsClean s m = true) : Cuts (step s m) := by
  have hdoes := step_does s m
  generalize step s m = s' at hdoes ⊢
  cases hdoes with
  | nothing => exact h
  | called | absent | lost | claimed | reused | reported | refused | asked | joined | heard | expired | purged | broken
  | closed | fired => exact h.same rfl rfl rfl
  | @started j c hj hstage hdials =>
    refine h.mono rfl id (fun i d hd hc => ⟨d, ?_, hc, id⟩) fun _ d hd hp => ?_
    · change (s.tasks ++ [c.dial])[i]? = some d
      rw [List.getElem?_append_left (List.getElem?_eq_some_iff.mp hd).1]
      exact hd
    · rcases List.mem_append.mp hd with hd | hd
      · exact ⟨d, hd, hp⟩
      · rw [List.mem_singleton.mp hd] at hp
        cases hp
  | connected hi hstage hcancel =>
    refine h.dial hi rfl rfl rfl (fun hc => ?_) fun _ => nofun
    rw [hcancel] at hc
    cases hc
  | failed hi hstage => exact h.ends hi rfl rfl rfl rfl rfl
  | stopped hi hstage => exact h.ends hi rfl rfl rfl rfl rfl
  | unadmitted hi hstage hblocked => exact h.ends hi rfl rfl rfl rfl rfl
  | admitted hi hstage hblocked =>
    refine h.dial hi rfl rfl rfl (fun _ hopens => ?_) fun hb => absurd hblocked hb
    rw [Dial.opens, hstage] at hopens
    cases hopens
  | superseded hi hstage => exact h.ends hi rfl rfl rfl rfl rfl
  | checked hi hstage =>
    refine h.dial hi rfl rfl rfl (fun _ hopens => ?_) fun _ _ => ?_
    · rw [Dial.opens, hstage] at hopens
      cases hopens
    · rw [Dial.passed, hstage]
  | pooled hi hstage => exact h.ends hi rfl rfl rfl rfl rfl
  | told hi hstage hhooks => exact h.ends hi rfl rfl rfl rfl rfl
  | untold hi hstage => exact h.ends hi rfl rfl rfl rfl rfl
  | left hi hstage => exact h.ends hi rfl rfl rfl rfl rfl
  | cut c => exact h.cut c
  | emptied hj => exact h.close hj rfl rfl rfl nofun
  | returned hj =>
    refine h.close hj rfl rfl rfl fun _ i hi => ?_
    simp only [cutsClean, hj, List.all_eq_true] at hclean
    simpa using hclean i hi
  | cancelled hj => exact (h.cancelMore _).same rfl rfl rfl
  | blocked why =>
    refine ⟨h.cancelled, fun _ d hd => ?_⟩
    simpa using List.all_eq_true.mp hclean d hd
  | lifted => exact ⟨h.cancelled, fun hb => absurd rfl hb⟩

theorem cuts_new : Cuts Pool.new := ⟨List.forall_mem_nil _, fun _ => List.forall_mem_nil _⟩

/-- A connection that enters the pool is of no dial that a close, returned, found in flight, and is admitted. -/
theorem Cuts.pools (h : Cuts s) (hi : s.tasks[i]? = some d) {c : Nat} (hstage : d.stage = .current c) :
    (∀ cl ∈ s.closes, cl.hasReturned = true → i ∉ cl.inFlight) ∧ s.blocked = none := by
  refine ⟨fun cl hcl hr hmem => ?_, ?_⟩
  · obtain ⟨d', hd', -, hopens⟩ := h.cancelled cl hcl i hmem
    obtain rfl := Option.some.inj (hi.symm.trans hd')
    have hnone := hopens hr
    rw [Dial.opens, hstage] at hnone
    cases hnone
  · by_contra hb
    have hpassed := h.blocked hb d (List.mem_of_getElem? hi)
    rw [Dial.passed, hstage] at hpassed
    cases hpassed

end Cuts

end DistributedMesh.Pooling
