import DistributedMesh.ConnectionConvergence

namespace DistributedMesh.Connections

open KeyedMaps

/-- What a holder is given, one after another. -/
inductive Given where
  | entry (e : NodeConnection)
  | ownSource (name : String)
  | topologyView (view : String → Birth)
  | complete

/-- The entries a holder applied, the newest first, and those of them applied since its node was named. -/
structure Past where
  applied : List NodeConnection
  sinceNamed : List NodeConnection

def Past.newestOf (entries : List NodeConnection) (i : ConnectionIndex) : Option NodeConnection :=
  entries.find? fun e => decide (e.index = i ∧ e.state ≠ .refused)

/-- The newest entry of a key that is not Refused. -/
def Past.newest (p : Past) (i : ConnectionIndex) : Option NodeConnection := newestOf p.applied i

/-- A holder beside the entries it applied. -/
structure Remembered where
  held : ConnectionsHeld
  past : Past

def Remembered.take (r : Remembered) : Given → Remembered
  | .entry e =>
    match r.held.apply e with
    | .ok held => ⟨held, e :: r.past.applied, e :: r.past.sinceNamed⟩
    | .error _ => r
  | .ownSource name =>
    ⟨r.held.setOwnSource name, r.past.applied, if r.held.ownSource ≠ some name then [] else r.past.sinceNamed⟩
  | .topologyView view => ⟨r.held.setTopologyView view, r.past⟩
  | .complete => ⟨r.held.markComplete, r.past⟩

def remembered (given : List Given) : Remembered := given.foldl Remembered.take ⟨.new, [], []⟩

/-- The view holds the node as deleted, or as a birth other than the one named. -/
def Superseded (view : Option (String → Birth)) (e : ConnectionEnd) : Prop :=
  ∃ v, view = some v ∧
    (v e.nodeId = .deleted ∨ ∃ now named, v e.nodeId = .current now ∧ e.incarnation = some named ∧ named ≠ now)

/-- The node's own Proxy: the newest entry of its key, applied since the node was named, and Connected. -/
structure Remembered.OwnActiveProxy (r : Remembered) (p : NodeConnection) : Prop where
  proxy : p.kind = .proxy
  own : r.held.ownSource = some p.source.nodeId
  newest : r.past.newest p.index = some p
  since : p ∈ r.past.sinceNamed
  connected : p.state = .connected

/-- A Proxy a call on the protocol may travel over now. -/
structure Remembered.Carries (r : Remembered) (destination : String) (alpn : List UInt8) (carriers : List String)
    (p : NodeConnection) (carrier : ConnectionEnd) : Prop where
  own : r.OwnActiveProxy p
  toward : p.toward = (destination, alpn)
  names : p.carrier = some carrier
  listed : carrier.type ∈ carriers
  destinationCurrent : ¬ Superseded r.held.topologyView p.destination
  carrierCurrent : ¬ Superseded r.held.topologyView carrier

/-- A Proxy whose destination or carrier is gone. -/
def Remembered.Lost (r : Remembered) (p : NodeConnection) : Prop :=
  Superseded r.held.topologyView p.destination ∨ ∃ c, p.carrier = some c ∧ Superseded r.held.topologyView c

/-- What is held of a key that its newest entry tells. -/
structure Remembered.Told (r : Remembered) : Prop where
  shape : ∀ e ∈ r.past.applied, e.shapeRefusal = none
  since : ∃ before, r.past.applied = r.past.sinceNamed ++ before
  active : ∀ i, (r.held.cells[i]?.bind Cell.active) = (r.past.newest i).filter NodeConnection.isActiveDirect
  failed : ∀ i, (r.held.cells[i]?.bind Cell.failed) =
    ((r.past.newest i).filter fun e => e.kind = .direct ∧ e.state = .failed).map NodeConnection.destination
  proxies : ∀ t : String × List UInt8, r.held.ownProxies[t]? =
    r.held.ownSource.bind fun name =>
      (Past.newestOf r.past.sinceNamed ⟨name, t.1, t.2, .proxy⟩).filter fun e => e.state = .connected

variable {r : Remembered} {e p : NodeConnection} {i : ConnectionIndex}

theorem endSuperseded_iff (h : ConnectionsHeld) (e : ConnectionEnd) :
    h.endSuperseded e = some true ↔ Superseded h.topologyView e := by
  unfold ConnectionsHeld.endSuperseded Superseded
  cases h.topologyView with
  | none => simp
  | some view =>
    rw [Option.bind_some]
    cases hbirth : view e.nodeId with
    | current now =>
      cases hinc : e.incarnation with
      | none => simp [hbirth]
      | some named => simp [hbirth]
    | deleted => simp [hbirth]
    | unknown => simp [hbirth]

theorem namesSuperseded_iff (h : ConnectionsHeld) (e : NodeConnection) :
    h.namesSupersededDestination e = true ↔ Superseded h.topologyView e.destination := by
  rw [← endSuperseded_iff]
  unfold ConnectionsHeld.namesSupersededDestination
  cases h.endSuperseded e.destination with
  | none => simp
  | some b => simp

theorem newestOf_cons (e : NodeConnection) (es : List NodeConnection) (i : ConnectionIndex) :
    Past.newestOf (e :: es) i = if e.index = i ∧ e.state ≠ .refused then some e else Past.newestOf es i := by
  unfold Past.newestOf
  rw [List.find?_cons]
  by_cases h : e.index = i ∧ e.state ≠ .refused
  · rw [if_pos h, decide_eq_true h]
  · rw [if_neg h, decide_eq_false h]

theorem newestOf_some {es : List NodeConnection} (h : Past.newestOf es i = some e) :
    e ∈ es ∧ e.index = i ∧ e.state ≠ .refused := by
  have hfound := List.find?_some h
  exact ⟨List.mem_of_find?_eq_some h, by simpa using hfound⟩

/-- An entry that is applied has a shape that is taken, and is newer than what its key holds. -/
theorem apply_ok {h h' : ConnectionsHeld} (hok : h.apply e = .ok h') :
    e.shapeRefusal = none ∧ h' = h.applied e ∧
      h.cells[e.index]?.any (fun held => decide (e.stamp ≤ held.stamp)) = false := by
  have happlied : h' = h.applied e := by
    unfold ConnectionsHeld.applied
    rw [hok]
  unfold ConnectionsHeld.apply at hok
  split at hok
  next => cases hok
  next hshape =>
    split at hok
    next => cases hok
    next hnone =>
      refine ⟨hshape, happlied, ?_⟩
      rw [Option.filter_eq_none_iff] at hnone
      rw [Option.any_eq_false]
      intro held hheld
      simpa using hnone held hheld

theorem slot_of_ok {h h' : ConnectionsHeld} (hok : h.apply e = .ok h') :
    h'.slot i =
      if e.index = i then ⟨some (ConnectionsHeld.cellAfter h.cells[e.index]? e), ownAfter h.ownSource (h.slot i).own e⟩
      else h.slot i := by
  obtain ⟨hshape, rfl, hnew⟩ := apply_ok hok
  rw [ConnectionsHeld.slot_applied hshape]
  split
  next heq =>
    subst heq
    unfold Slot.offer
    rw [if_neg (by rw [show (h.slot e.index).cell = h.cells[e.index]? from rfl, hnew]; exact Bool.false_ne_true)]
    rfl
  next => rfl

theorem active_cellAfter (held : Option Cell) (e : NodeConnection) :
    (ConnectionsHeld.cellAfter held e).active =
      if e.state = .refused then held.bind Cell.active else (some e).filter NodeConnection.isActiveDirect := by
  unfold ConnectionsHeld.cellAfter
  split
  next => rfl
  next => rw [Option.filter_some]

theorem failed_cellAfter (held : Option Cell) (e : NodeConnection) :
    (ConnectionsHeld.cellAfter held e).failed =
      if e.state = .refused then held.bind Cell.failed
      else ((some e).filter fun e => e.kind = .direct ∧ e.state = .failed).map NodeConnection.destination := by
  unfold ConnectionsHeld.cellAfter
  split
  next => rfl
  next =>
    rw [Option.filter_some]
    by_cases hfailed : e.kind = .direct ∧ e.state = .failed
    · simp [hfailed]
    · simp [hfailed]

/-- A Proxy is never Refused, so its newest entry is the one its source holds or removed. -/
theorem proxy_not_refused (hshape : e.shapeRefusal = none) (hproxy : e.kind = .proxy) :
    e.state ≠ .refused ∧ ∃ c, e.carrier = some c := by
  unfold NodeConnection.shapeRefusal at hshape
  dsimp only at hshape
  split at hshape
  next => cases hshape
  next =>
    rw [hproxy] at hshape
    cases hstate : e.state with
    | connected =>
      cases hc : e.carrier with
      | none => simp [hstate, hc] at hshape
      | some c => exact ⟨by decide, c, rfl⟩
    | disconnected =>
      cases hc : e.carrier with
      | none => simp [hstate, hc] at hshape
      | some c => exact ⟨by decide, c, rfl⟩
    | failed => simp [hstate] at hshape
    | refused => simp [hstate] at hshape

/-- What a key's cell shows of its newest entry, once an entry is applied. -/
theorem newest_shown {α : Type} {cells : Option Cell} {applied : List NodeConnection} (shows : Cell → Option α)
    (shown : Option NodeConnection → Option α)
    (hafter : shows (ConnectionsHeld.cellAfter cells e) = if e.state = .refused then cells.bind shows else shown (some e))
    (hheld : cells.bind shows = shown (Past.newestOf applied i)) :
    (if e.index = i then some (ConnectionsHeld.cellAfter cells e) else cells).bind shows =
      shown (Past.newestOf (e :: applied) i) := by
  rw [newestOf_cons]
  by_cases heq : e.index = i
  · rw [if_pos heq, Option.bind_some, hafter]
    by_cases hrefused : e.state = .refused
    · rw [if_pos hrefused, if_neg (fun hc => hc.2 hrefused)]
      exact hheld
    · rw [if_neg hrefused, if_pos ⟨heq, hrefused⟩]
  · rw [if_neg heq, if_neg (fun hc => heq hc.1)]
    exact hheld

theorem cells_of_ok {h h' : ConnectionsHeld} (hok : h.apply e = .ok h') :
    h'.cells[i]? = if e.index = i then some (ConnectionsHeld.cellAfter h.cells[i]? e) else h.cells[i]? := by
  have hslot := congrArg Slot.cell (slot_of_ok (i := i) hok)
  rw [show h'.cells[i]? = (h'.slot i).cell from rfl, hslot]
  split
  next heq => rw [heq]
  next => rfl

theorem Remembered.Told.entry_proxies (h : r.Told) {held : ConnectionsHeld} (hok : r.held.apply e = .ok held) {name : String}
    (hname : r.held.ownSource = some name) (hown : held.ownSource = r.held.ownSource) (t : String × List UInt8) :
    held.ownProxies[t]? =
      (Past.newestOf (e :: r.past.sinceNamed) ⟨name, t.1, t.2, .proxy⟩).filter fun e => e.state = .connected := by
  obtain ⟨hshape, -, -⟩ := apply_ok hok
  have hread : ∀ g : ConnectionsHeld, g.ownSource = some name →
      (g.slot ⟨name, t.1, t.2, .proxy⟩).own = g.ownProxies[t]? := by
    intro g hg
    unfold ConnectionsHeld.slot
    rw [if_pos hg]
  have hproxies := h.proxies t
  rw [hname, Option.bind_some] at hproxies
  have hslot := congrArg Slot.own (slot_of_ok (i := ⟨name, t.1, t.2, .proxy⟩) hok)
  rw [hread held (hown.trans hname)] at hslot
  rw [hslot, newestOf_cons]
  by_cases heq : e.index = ⟨name, t.1, t.2, .proxy⟩
  · rw [if_pos heq]
    have hkind : e.kind = .proxy := congrArg ConnectionIndex.kind heq
    have hsource : e.source.nodeId = name := congrArg ConnectionIndex.source heq
    rw [if_pos ⟨heq, (proxy_not_refused hshape hkind).1⟩]
    unfold ownAfter
    rw [if_neg (by rw [hname, hsource]; simp), hkind, Option.filter_some]
    by_cases hc : e.state = .connected
    · simp [hc]
    · simp [hc]
  · rw [if_neg heq, if_neg (fun hc => heq hc.1), hread r.held hname]
    exact hproxies

theorem Remembered.Told.entry (h : r.Told) {held : ConnectionsHeld} (hok : r.held.apply e = .ok held) :
    Remembered.Told ⟨held, e :: r.past.applied, e :: r.past.sinceNamed⟩ := by
  obtain ⟨hshape, hheld, hnew⟩ := apply_ok hok
  have hown : held.ownSource = r.held.ownSource := by rw [hheld]; exact (ConnectionsHeld.applied_kept r.held e).1
  refine ⟨?_, ?_, fun i => ?_, fun i => ?_, fun t => ?_⟩
  · intro d hd
    rcases List.mem_cons.mp hd with rfl | hd
    · exact hshape
    · exact h.shape d hd
  · obtain ⟨before, hbefore⟩ := h.since
    exact ⟨before, by rw [hbefore]; rfl⟩
  · rw [cells_of_ok hok]
    exact newest_shown Cell.active (fun o => o.filter NodeConnection.isActiveDirect) (active_cellAfter _ e) (h.active i)
  · rw [cells_of_ok hok]
    exact newest_shown Cell.failed
      (fun o => (o.filter fun e => e.kind = .direct ∧ e.state = .failed).map NodeConnection.destination) (failed_cellAfter _ e)
      (h.failed i)
  · dsimp only
    cases hname : r.held.ownSource with
    | none =>
      have hproxies := h.proxies t
      have hsame : held.ownProxies = r.held.ownProxies := by
        rw [hheld, ConnectionsHeld.applied_of_new hshape hnew]
        simp [hname]
      rw [hown, hname, hsame]
      rw [hname] at hproxies
      exact hproxies
    | some name =>
      rw [hown, hname]
      exact h.entry_proxies hok hname hown t

theorem Remembered.Told.take (h : r.Told) (g : Given) : (r.take g).Told := by
  cases g with
  | entry e =>
    unfold Remembered.take
    dsimp only
    split
    next held hok => exact h.entry hok
    next => exact h
  | ownSource name =>
    unfold Remembered.take ConnectionsHeld.setOwnSource
    dsimp only
    split
    next =>
      refine ⟨h.shape, ⟨r.past.applied, rfl⟩, h.active, h.failed, fun t => ?_⟩
      simp [Past.newestOf]
    next => exact h
  | topologyView view => exact ⟨h.shape, h.since, h.active, h.failed, h.proxies⟩
  | complete => exact ⟨h.shape, h.since, h.active, h.failed, h.proxies⟩

theorem told_remembered (given : List Given) : (remembered given).Told := by
  unfold remembered
  have hstart : Remembered.Told ⟨.new, [], []⟩ :=
    ⟨by simp, ⟨[], rfl⟩, fun i => by simp [ConnectionsHeld.new, Past.newest, Past.newestOf],
      fun i => by simp [ConnectionsHeld.new, Past.newest, Past.newestOf], fun t => by simp [ConnectionsHeld.new]⟩
  generalize (⟨.new, [], []⟩ : Remembered) = r at hstart
  induction given generalizing r with
  | nil => exact hstart
  | cons g given ih => exact ih _ (hstart.take g)

theorem Remembered.Told.ownProxies_iff (h : r.Told) (t : String × List UInt8) :
    r.held.ownProxies[t]? = some p ↔ r.OwnActiveProxy p ∧ p.toward = t := by
  rw [h.proxies t]
  obtain ⟨before, hbefore⟩ := h.since
  constructor
  · intro hp
    obtain ⟨name, hname, hp⟩ := Option.bind_eq_some_iff.mp hp
    obtain ⟨hp, hconnected⟩ := Option.filter_eq_some_iff.mp hp
    obtain ⟨hmem, hindex, -⟩ := newestOf_some hp
    have hsource : p.source.nodeId = name := congrArg ConnectionIndex.source hindex
    have htoward : p.toward = t :=
      Prod.ext (congrArg ConnectionIndex.destination hindex) (congrArg ConnectionIndex.alpn hindex)
    refine ⟨⟨congrArg ConnectionIndex.kind hindex, by rw [hname, hsource], ?_, hmem, by simpa using hconnected⟩, htoward⟩
    unfold Past.newest Past.newestOf
    rw [hbefore, List.find?_append, hindex]
    unfold Past.newestOf at hp
    rw [hp]
    rfl
  · rintro ⟨hp, rfl⟩
    rw [hp.own, Option.bind_some]
    have hindex : p.index = ⟨p.source.nodeId, p.toward.1, p.toward.2, .proxy⟩ := by
      rw [← hp.proxy]
      rfl
    rw [← hindex]
    refine Option.filter_eq_some_iff.mpr ⟨?_, by simpa using hp.connected⟩
    have hnewest := hp.newest
    unfold Past.newest Past.newestOf at hnewest
    rw [hbefore, List.find?_append] at hnewest
    unfold Past.newestOf
    cases hfound : r.past.sinceNamed.find? fun e => decide (e.index = p.index ∧ e.state ≠ .refused) with
    | some q =>
      rw [hfound] at hnewest
      exact hnewest
    | none =>
      rw [List.find?_eq_none] at hfound
      have hnot := hfound p hp.since
      simp [hp.connected] at hnot

theorem Remembered.Told.keyed (h : r.Told) : Keyed NodeConnection.toward r.held.ownProxies := by
  intro t q hq
  exact ((h.ownProxies_iff t).mp hq).2

theorem Remembered.Told.mem_ownActiveProxies (h : r.Told) : p ∈ r.held.ownActiveProxies ↔ r.OwnActiveProxy p := by
  have hvalues := h.keyed.mem_values p
  unfold ConnectionsHeld.ownActiveProxies
  rw [List.mem_mergeSort]
  refine hvalues.trans ?_
  rw [h.ownProxies_iff]
  simp

theorem Remembered.Told.nodup_ownActiveProxies (h : r.Told) : r.held.ownActiveProxies.Nodup := by
  unfold ConnectionsHeld.ownActiveProxies
  rw [List.Perm.nodup_iff (List.mergeSort_perm _ _)]
  exact List.Nodup.of_map _ h.keyed.nodup_values

/-- A Proxy that names its carrier is invalid when one of its dependencies is gone. -/
theorem Remembered.Told.proxyInvalid_iff (h : r.Told) (hp : r.OwnActiveProxy p) :
    (∃ c, p.carrier = some c) ∧ ((proxyInvalid r.held p).isSome = true ↔ r.Lost p) := by
  have hmem : p ∈ r.past.applied := (newestOf_some hp.newest).1
  obtain ⟨-, c, hc⟩ := proxy_not_refused (h.shape p hmem) hp.proxy
  refine ⟨⟨c, hc⟩, ?_⟩
  unfold proxyInvalid Remembered.Lost
  rw [hc]
  have hdestination := endSuperseded_iff r.held p.destination
  have hcarrier := endSuperseded_iff r.held c
  dsimp only
  by_cases hd : r.held.endSuperseded p.destination = some true
  · simp [hd, hdestination.mp hd]
  · by_cases hcar : r.held.endSuperseded c = some true
    · simp [hd, hcar, hcarrier.mp hcar]
    · simp [hd, hcar, mt hdestination.mpr hd, mt hcarrier.mpr hcar]

theorem map_fst_judged {α β : Type} (f : α → Option β) (l : List α) :
    (l.filterMap fun a => (f a).map fun b => (a, b)).map Prod.fst = l.filter fun a => (f a).isSome := by
  induction l with
  | nil => rfl
  | cons a l ih =>
    cases hf : f a with
    | none => simp [hf, ih]
    | some b => simp [hf, ih]

/-- The Proxy toward the destination, as the resolution of a protocol that proxies meets it. -/
theorem Remembered.Told.ownProxyFor_iff (h : r.Told) {destination : String} {alpn : List UInt8} :
    r.held.ownProxyFor destination alpn = some (some p) ↔
      r.held.complete = true ∧ r.OwnActiveProxy p ∧ p.toward = (destination, alpn) := by
  have hproxy := h.ownProxies_iff (p := p) (destination, alpn)
  unfold ConnectionsHeld.ownProxyFor
  cases hc : r.held.complete with
  | false => simp
  | true =>
    cases hs : r.held.ownSource with
    | none =>
      have hnone : ¬ r.OwnActiveProxy p := fun hp => by simp [hp.own] at hs
      simp [hnone]
    | some name => simpa using hproxy

section Resolution

variable (own destination : String) (alpn : List UInt8) (proxy : Bool) (carriers : List String)

theorem throughProxy_route (h : r.Told) {route : EffectiveRoute} :
    (throughProxy r.held destination alpn carriers).1 = some route ↔
      r.held.complete = true ∧ ∃ p c, r.Carries destination alpn carriers p c ∧ route = .viaPeer c.nodeId p := by
  unfold throughProxy
  split
  next p hp =>
    obtain ⟨hcomplete, hown, htoward⟩ := h.ownProxyFor_iff.mp hp
    obtain ⟨⟨c, hc⟩, hlost⟩ := h.proxyInvalid_iff hown
    have honly : ∀ q d, r.Carries destination alpn carriers q d → q = p ∧ d = c := by
      intro q d hq
      have hsame := h.ownProxyFor_iff.mpr ⟨hcomplete, hq.own, hq.toward⟩
      rw [hp] at hsame
      cases hsame
      exact ⟨rfl, Option.some.inj (hq.names.symm.trans hc)⟩
    split
    next reason hreason =>
      have hgone : r.Lost p := hlost.mp (by rw [hreason]; rfl)
      refine ⟨fun hn => (by cases hn), ?_⟩
      rintro ⟨-, q, d, hq, -⟩
      obtain ⟨rfl, rfl⟩ := honly q d hq
      rcases hgone with hd | ⟨c', hc', hgone⟩
      · exact absurd hd hq.destinationCurrent
      · rw [hc'] at hc
        cases hc
        exact absurd hgone hq.carrierCurrent
    next hvalid =>
      have hkept : ¬ r.Lost p := fun hl => by
        have hsome := hlost.mpr hl
        rw [hvalid] at hsome
        cases hsome
      rw [hc, Option.filter_some]
      constructor
      · intro hroute
        obtain ⟨d, hd, rfl⟩ := Option.map_eq_some_iff.mp hroute
        split at hd
        next hlisted =>
          cases hd
          refine ⟨hcomplete, p, c, ⟨hown, htoward, hc, by simpa using hlisted, fun hd => hkept (.inl hd), ?_⟩, rfl⟩
          exact fun hgone => hkept (.inr ⟨c, hc, hgone⟩)
        next => cases hd
      · rintro ⟨-, q, d, hq, rfl⟩
        obtain ⟨rfl, rfl⟩ := honly q d hq
        rw [if_pos (by simpa using hq.listed)]
        rfl
  next hnone =>
    refine ⟨fun hn => (by cases hn), ?_⟩
    rintro ⟨hcomplete, q, d, hq, -⟩
    exact absurd (h.ownProxyFor_iff.mpr ⟨hcomplete, hq.own, hq.toward⟩) (hnone q)

theorem via_iff (h : r.Told) (route : EffectiveRoute) :
    (if proxy && !carriers.isEmpty then throughProxy r.held destination alpn carriers else (none, [])).1 = some route ↔
      (proxy = true ∧ r.held.complete = true) ∧
        ∃ p c, r.Carries destination alpn carriers p c ∧ route = .viaPeer c.nodeId p := by
  split
  next hproxy =>
    have hproxies : proxy = true := (Bool.and_eq_true_iff.mp hproxy).1
    rw [throughProxy_route destination alpn carriers h]
    simp [hproxies]
  next hproxy =>
    refine ⟨fun hn => (by cases hn), ?_⟩
    rintro ⟨⟨rfl, -⟩, p, c, hc, -⟩
    have hlisted := hc.listed
    have hempty : carriers = [] := by simpa using hproxy
    rw [hempty] at hlisted
    cases hlisted

theorem directRoute_iff (h : r.Told) :
    (directRoute r.held own destination alpn = .direct true ↔
      r.held.complete = true ∧ ∃ e, r.past.newest ⟨own, destination, alpn, .direct⟩ = some e ∧ e.state = .connected ∧
        ¬ Superseded r.held.topologyView e.destination) ∧
    (directRoute r.held own destination alpn = .noActiveRoute ↔
      r.held.complete = true ∧ ∃ e, r.past.newest ⟨own, destination, alpn, .direct⟩ = some e ∧ e.state = .failed ∧
        ¬ Superseded r.held.topologyView e.destination) := by
  have hactive := h.active ⟨own, destination, alpn, .direct⟩
  have hfailed := h.failed ⟨own, destination, alpn, .direct⟩
  unfold directRoute ConnectionsHeld.activeDirectFor ConnectionsHeld.latestDirectFailedFor
  rw [hactive, hfailed]
  cases r.held.complete with
  | false => simp
  | true =>
    cases hnewest : r.past.newest ⟨own, destination, alpn, .direct⟩ with
    | none => simp
    | some e =>
      have hkind : e.kind = .direct := congrArg ConnectionIndex.kind (newestOf_some hnewest).2.1
      have hnames := namesSuperseded_iff r.held e
      have hends := endSuperseded_iff r.held e.destination
      cases hstate : e.state with
      | connected =>
        have hisActive : e.isActiveDirect = true := by simp [NodeConnection.isActiveDirect, hkind, hstate]
        simp [hisActive, Option.filter_some, hstate, ← hnames]
      | failed =>
        have hnotActive : e.isActiveDirect = false := by simp [NodeConnection.isActiveDirect, hstate]
        by_cases hgone : r.held.endSuperseded e.destination = some true
        · simp [hnotActive, Option.filter_some, hstate, hkind, ← hends, hgone]
        · simp [hnotActive, Option.filter_some, hstate, hkind, ← hends, hgone]
      | disconnected =>
        have hnotActive : e.isActiveDirect = false := by simp [NodeConnection.isActiveDirect, hstate]
        simp [hnotActive, Option.filter_some, hstate]
      | refused => exact absurd hstate (newestOf_some hnewest).2.2

theorem directRoute_not_via (h : ConnectionsHeld) {carrier : String} {p : NodeConnection} :
    directRoute h own destination alpn ≠ .viaPeer carrier p := by
  unfold directRoute
  split
  next => simp
  next => split <;> simp
  next => simp

/-- How often a Proxy with a dependency that is gone is named for deletion. -/
theorem delete_count (h : r.Told) (hp : r.OwnActiveProxy p) (hlost : r.Lost p) :
    ((resolveForCarriers r.held own destination alpn proxy carriers).delete.map Prod.fst).count p =
      if p.toward = (destination, alpn) ∧ (proxy = false ∨ carriers = [] ∨ r.held.complete = false) then 0 else 1 := by
  unfold resolveForCarriers
  dsimp only
  rw [List.map_append, List.count_append, map_fst_judged]
  have hinvalid := (h.proxyInvalid_iff hp).2.mpr hlost
  have hnodup : ((r.held.ownActiveProxies.filter fun q => !(q.toward == (destination, alpn))).filter fun q =>
      (proxyInvalid r.held q).isSome).Nodup := (h.nodup_ownActiveProxies.filter _).filter _
  rw [hnodup.count]
  have hothers : (p ∈ (r.held.ownActiveProxies.filter fun q => !(q.toward == (destination, alpn))).filter fun q =>
      (proxyInvalid r.held q).isSome) ↔ p.toward ≠ (destination, alpn) := by
    simp [List.mem_filter, h.mem_ownActiveProxies, hp, hinvalid]
  by_cases htoward : p.toward = (destination, alpn)
  · rw [if_neg (fun hm => hothers.mp hm htoward), Nat.add_zero]
    have hreason : ∃ reason, proxyInvalid r.held p = some reason := Option.isSome_iff_exists.mp hinvalid
    obtain ⟨reason, hreason⟩ := hreason
    cases hproxy : proxy with
    | false => simp [htoward]
    | true =>
      cases carriers with
      | nil => simp [htoward]
      | cons c cs =>
        cases hcomplete : r.held.complete with
        | false =>
          have hnone : r.held.ownProxyFor destination alpn = none := by
            simp [ConnectionsHeld.ownProxyFor, hcomplete]
          simp [throughProxy, hnone, htoward]
        | true =>
          have hfor := h.ownProxyFor_iff.mpr ⟨hcomplete, hp, htoward⟩
          simp [throughProxy, hfor, hreason]
  · have hnotVia : (((if proxy && !carriers.isEmpty then throughProxy r.held destination alpn carriers
        else (none, [])).2).map Prod.fst).count p = 0 := by
      rw [List.count_eq_zero]
      intro hmem
      split at hmem
      next =>
        unfold throughProxy at hmem
        split at hmem
        next q hq =>
          have hqtoward := (h.ownProxyFor_iff.mp hq).2.2
          split at hmem
          next =>
            have hpq : p = q := by simpa using hmem
            exact htoward (hpq ▸ hqtoward)
          next => cases hmem
        next => cases hmem
      next => cases hmem
    rw [hnotVia, if_pos (hothers.mpr htoward), if_neg (fun hc => htoward hc.1)]

end Resolution

/-- Whatever a holder was given, in whatever order, a route rests on the newest evidence it applied. -/
theorem route_rests_on_current_evidence (given : List Given) (own destination : String) (alpn : List UInt8) (proxy : Bool)
    (carriers : List String) :
    let r := remembered given
    let resolution := resolveForCarriers r.held own destination alpn proxy carriers
    let newest := r.past.newest ⟨own, destination, alpn, .direct⟩
    (∀ carrier p, resolution.route = .viaPeer carrier p →
      ∃ c, r.Carries destination alpn carriers p c ∧ c.nodeId = carrier) ∧
    (resolution.route = .direct true →
      ∃ e, newest = some e ∧ e.state = .connected ∧ ¬ Superseded r.held.topologyView e.destination) ∧
    (resolution.route = .noActiveRoute ↔
      r.held.complete = true ∧ ¬ (proxy = true ∧ ∃ p c, r.Carries destination alpn carriers p c) ∧
        ∃ e, newest = some e ∧ e.state = .failed ∧ ¬ Superseded r.held.topologyView e.destination) ∧
    ∀ p, r.OwnActiveProxy p → r.Lost p →
      (resolution.delete.map Prod.fst).count p =
        if p.toward = (destination, alpn) ∧ (proxy = false ∨ carriers = [] ∨ r.held.complete = false) then 0 else 1 := by
  intro r resolution newest
  have h : r.Told := told_remembered given
  have hdirect := directRoute_iff own destination alpn h
  have hvia := via_iff destination alpn proxy carriers h
  have hroute : resolution.route =
      (if proxy && !carriers.isEmpty then throughProxy r.held destination alpn carriers else (none, [])).1.getD
        (directRoute r.held own destination alpn) := rfl
  rw [hroute]
  cases hthrough : (if proxy && !carriers.isEmpty then throughProxy r.held destination alpn carriers else (none, [])).1 with
  | some route =>
    obtain ⟨⟨hproxy, hcomplete⟩, p, c, hc, rfl⟩ := (hvia route).mp hthrough
    rw [Option.getD_some]
    refine ⟨?_, fun hd => (by cases hd), ⟨fun hn => (by cases hn), ?_⟩, ?_⟩
    · intro carrier q hq
      cases hq
      exact ⟨c, hc, rfl⟩
    · rintro ⟨-, hno, -⟩
      exact absurd ⟨hproxy, p, c, hc⟩ hno
    · exact fun q hq hlost => delete_count own destination alpn proxy carriers h hq hlost
  | none =>
    have hno : ¬ ((proxy = true ∧ r.held.complete = true) ∧ ∃ p c, r.Carries destination alpn carriers p c) := by
      rintro ⟨hp, p, c, hc⟩
      have hsome := (hvia (.viaPeer c.nodeId p)).mpr ⟨hp, p, c, hc, rfl⟩
      rw [hthrough] at hsome
      cases hsome
    rw [Option.getD_none]
    refine ⟨?_, fun hd => (hdirect.1.mp hd).2, ?_, ?_⟩
    · intro carrier p hp
      exact absurd hp (directRoute_not_via own destination alpn r.held)
    · rw [hdirect.2]
      constructor
      · rintro ⟨hcomplete, he⟩
        exact ⟨hcomplete, fun hc => hno ⟨⟨hc.1, hcomplete⟩, hc.2⟩, he⟩
      · rintro ⟨hcomplete, -, he⟩
        exact ⟨hcomplete, he⟩
    · exact fun q hq hlost => delete_count own destination alpn proxy carriers h hq hlost

def routedEnd (type node birth : String) : ConnectionEnd := ⟨"m", type, "p", node, node, some birth⟩

/-- A Proxy of node `a` to node `b`, through node `c`. -/
def routedProxy : NodeConnection :=
  ⟨"1", routedEnd "app" "a" "a1", routedEnd "app" "b" "b1", .proxy, [1], .connected, some (routedEnd "relay" "c" "c1"), none, 1⟩

/-- A dial of node `a` to node `b` that failed. -/
def routedFailed : NodeConnection :=
  ⟨"2", routedEnd "app" "a" "a1", routedEnd "app" "b" "b1", .direct, [1], .failed, none, none, 1⟩

/-- A holder that is not complete does not name the Proxy toward the destination, though it is lost; and a protocol that
does not proxy is told there is no route beside a Proxy whose carrier it lists. -/
theorem proxy_toward_destination_gated :
    ((remembered [.ownSource "a", .entry routedProxy, .topologyView fun _ => .deleted]).OwnActiveProxy routedProxy ∧
      (remembered [.ownSource "a", .entry routedProxy, .topologyView fun _ => .deleted]).Lost routedProxy ∧
      ((resolveForCarriers (remembered [.ownSource "a", .entry routedProxy, .topologyView fun _ => .deleted]).held "a" "b" [1]
        true ["relay"]).delete.map Prod.fst).count routedProxy = 0) ∧
    ((remembered [.ownSource "a", .entry routedProxy, .entry routedFailed, .complete]).Carries "b" [1] ["relay"]
        routedProxy (routedEnd "relay" "c" "c1") ∧
      (resolveForCarriers (remembered [.ownSource "a", .entry routedProxy, .entry routedFailed, .complete]).held "a" "b" [1]
        false ["relay"]).route = .noActiveRoute) := by
  refine ⟨⟨⟨rfl, by decide +kernel, by decide +kernel, by decide +kernel, rfl⟩, .inl ⟨_, rfl, .inl rfl⟩, by decide +kernel⟩,
    ⟨⟨rfl, by decide +kernel, by decide +kernel, by decide +kernel, rfl⟩, rfl, rfl, by decide, ?_, ?_⟩, by decide +kernel⟩
  · rintro ⟨v, hv, -⟩
    cases hv
  · rintro ⟨v, hv, -⟩
    cases hv

end DistributedMesh.Connections
