import DistributedMesh.Connections
import DistributedMesh.Registers

namespace DistributedMesh.Connections

open KeyedMaps Registers

/-- What a holder has of one key: its cell, and its own entry when it is the key's source. -/
@[ext] structure Slot where
  cell : Option Cell
  own : Option NodeConnection

/-- What the source of an entry holds of its key once the entry is taken. -/
def ownAfter (ownSource : Option String) (held : Option NodeConnection) (e : NodeConnection) : Option NodeConnection :=
  if ownSource ≠ some e.source.nodeId then held
  else
    match e.kind with
    | .direct => if e.state = .refused then held else some e
    | .proxy => if e.state = .connected then some e else none

/-- An entry is offered for its key. -/
def Slot.offer (ownSource : Option String) (s : Slot) (e : NodeConnection) : Slot :=
  if s.cell.any fun held => decide (e.stamp ≤ held.stamp) then s
  else ⟨some (ConnectionsHeld.cellAfter s.cell e), ownAfter ownSource s.own e⟩

namespace ConnectionsHeld

def slot (h : ConnectionsHeld) (i : ConnectionIndex) : Slot where
  cell := h.cells[i]?
  own :=
    if h.ownSource = some i.source then
      match i.kind with
      | .direct => h.ownDirects[(i.destination, i.alpn)]?
      | .proxy => h.ownProxies[(i.destination, i.alpn)]?
    else none

/-- A holder of one source, and nothing else. -/
def holder (own : Option String) : ConnectionsHeld := own.elim new new.setOwnSource

/-- What a holder ends with, after entries in one order. -/
def heldAfter (own : Option String) (entries : List NodeConnection) : ConnectionsHeld :=
  entries.foldl applied (holder own)

variable {h h' : ConnectionsHeld} {e : NodeConnection} {i : ConnectionIndex} {own : Option String}

theorem applied_of_stale (hshape : e.shapeRefusal = none)
    (hstale : h.cells[e.index]?.any (fun held => decide (e.stamp ≤ held.stamp)) = true) : h.applied e = h := by
  unfold applied apply
  rw [hshape]
  dsimp only
  cases hcell : h.cells[e.index]? with
  | none => simp [hcell] at hstale
  | some held =>
    have hle : e.stamp ≤ held.stamp := by simpa [hcell] using hstale
    simp [Option.filter_some, hle]

theorem applied_of_new (hshape : e.shapeRefusal = none)
    (hnew : h.cells[e.index]?.any (fun held => decide (e.stamp ≤ held.stamp)) = false) :
    h.applied e =
      { h with
        ownDirects :=
          if e.kind = .direct ∧ e.state ≠ .refused ∧ h.ownSource = some e.source.nodeId then h.ownDirects.insert e.toward e
          else h.ownDirects
        ownProxies :=
          if e.kind = .proxy ∧ h.ownSource = some e.source.nodeId then
            if e.state = .connected then h.ownProxies.insert e.toward e else h.ownProxies.erase e.toward
          else h.ownProxies
        cells := h.cells.insert e.index (cellAfter h.cells[e.index]? e) } := by
  have hnone : h.cells[e.index]?.filter (fun held => decide (e.stamp ≤ held.stamp)) = none := by
    rw [Option.filter_eq_none_iff]
    rw [Option.any_eq_false] at hnew
    intro held hheld
    simpa using hnew held hheld
  unfold applied apply
  rw [hshape]
  dsimp only
  rw [hnone]

theorem own_other (hne : e.index ≠ i) (hown : h.ownSource = some i.source) (hsource : h.ownSource = some e.source.nodeId)
    (hkind : e.kind = i.kind) : e.toward ≠ (i.destination, i.alpn) := by
  intro htoward
  apply hne
  have hs : e.source.nodeId = i.source := Option.some.inj (hsource.symm.trans hown)
  obtain ⟨hd, ha⟩ := Prod.mk.inj htoward
  obtain ⟨source, destination, alpn, kind⟩ := i
  unfold NodeConnection.index
  dsimp only at *
  rw [hs, hd, ha, hkind]

/-- An entry is offered for its key, and leaves every other. -/
theorem slot_applied (hshape : e.shapeRefusal = none) :
    (h.applied e).slot i = if e.index = i then (h.slot i).offer h.ownSource e else h.slot i := by
  cases hstale : h.cells[e.index]?.any (fun held => decide (e.stamp ≤ held.stamp)) with
  | true =>
    rw [applied_of_stale hshape hstale]
    split
    next heq =>
      subst heq
      unfold Slot.offer
      rw [if_pos (show (h.slot e.index).cell.any _ = true from hstale)]
    next => rfl
  | false =>
    rw [applied_of_new hshape hstale]
    by_cases heq : e.index = i
    · rw [if_pos heq]
      subst heq
      unfold Slot.offer
      rw [if_neg (show ¬ (h.slot e.index).cell.any _ = true by rw [Bool.not_eq_true]; exact hstale)]
      refine Slot.ext ?_ ?_
      · show (h.cells.insert e.index _)[e.index]? = _
        rw [getElem?_insert_eq, if_pos rfl]
        rfl
      · unfold slot ownAfter
        by_cases hown : h.ownSource = some e.source.nodeId
        · have hread : (e.index.destination, e.index.alpn) = e.toward := rfl
          have hsource : e.index.source = e.source.nodeId := rfl
          have hkind : e.index.kind = e.kind := rfl
          simp only [hread, hsource, hkind, hown, ne_eq, not_true_eq_false, if_true, if_false, and_true]
          cases hk : e.kind with
          | direct =>
            by_cases hr : e.state = .refused
            · simp [hr]
            · simp [hr]
          | proxy =>
            by_cases hc : e.state = .connected
            · simp [hc]
            · simp [hc]
        · have hsource : e.index.source = e.source.nodeId := rfl
          simp [hsource, hown]
    · rw [if_neg heq]
      refine Slot.ext ?_ ?_
      · show (h.cells.insert e.index _)[i]? = _
        rw [getElem?_insert_eq, if_neg heq]
        rfl
      · unfold slot
        dsimp only
        by_cases hown : h.ownSource = some i.source
        · rw [if_pos hown, if_pos hown]
          cases hk : i.kind with
          | direct =>
            dsimp only
            split
            next hd =>
              rw [getElem?_insert_eq, if_neg (own_other heq hown hd.2.2 (hd.1.trans hk.symm))]
            next => rfl
          | proxy =>
            dsimp only
            split
            next hp =>
              have hother := own_other heq hown hp.2 (hp.1.trans hk.symm)
              split
              · rw [getElem?_insert_eq, if_neg hother]
              · rw [getElem?_erase_eq, if_neg hother]
            next => rfl
        · rw [if_neg hown, if_neg hown]

theorem applied_kept (h : ConnectionsHeld) (e : NodeConnection) :
    (h.applied e).ownSource = h.ownSource ∧ (h.applied e).complete = h.complete ∧
      (h.applied e).topologyView = h.topologyView := by
  unfold applied apply
  split
  next hok =>
    split at hok
    next => cases hok
    next =>
      split at hok
      next => cases hok
      next =>
        cases hok
        exact ⟨rfl, rfl, rfl⟩
  next => exact ⟨rfl, rfl, rfl⟩

theorem slot_foldl {xs : List NodeConnection} (hshape : ∀ e ∈ xs, e.shapeRefusal = none) :
    (xs.foldl applied h).slot i = (xs.filter fun e => e.index = i).foldl (Slot.offer h.ownSource) (h.slot i) := by
  induction xs generalizing h with
  | nil => rfl
  | cons e xs ih =>
    have hrest := fun d hd => hshape d (List.mem_cons_of_mem e hd)
    rw [List.foldl_cons, ih hrest, slot_applied (hshape e List.mem_cons_self), (applied_kept h e).1, List.filter_cons]
    by_cases heq : e.index = i
    · simp [heq]
    · simp [heq]

theorem slot_holder (own : Option String) (i : ConnectionIndex) : (holder own).slot i = ⟨none, none⟩ := by
  cases own with
  | none => rfl
  | some name =>
    have hnew : holder (some name) = { new with ownSource := some name } := rfl
    rw [hnew]
    unfold slot
    cases i.kind <;> simp [new]

theorem ownSource_holder (own : Option String) : (holder own).ownSource = own := by
  cases own <;> rfl

theorem slot_heldAfter {xs : List NodeConnection} (hshape : ∀ e ∈ xs, e.shapeRefusal = none) :
    (heldAfter own xs).slot i = (xs.filter fun e => e.index = i).foldl (Slot.offer own) ⟨none, none⟩ := by
  unfold heldAfter
  rw [slot_foldl hshape, ownSource_holder, slot_holder]

theorem heldAfter_kept (own : Option String) (xs : List NodeConnection) :
    (heldAfter own xs).ownSource = own ∧ (heldAfter own xs).complete = false ∧ (heldAfter own xs).topologyView = none := by
  unfold heldAfter
  have hstart : (holder own).ownSource = own ∧ (holder own).complete = false ∧ (holder own).topologyView = none := by
    cases own <;> exact ⟨rfl, rfl, rfl⟩
  generalize holder own = h at hstart
  induction xs generalizing h with
  | nil => exact hstart
  | cons e xs ih =>
    obtain ⟨hown, hcomplete, hview⟩ := applied_kept h e
    exact ih (h.applied e) ⟨hown.trans hstart.1, hcomplete.trans hstart.2.1, hview.trans hstart.2.2⟩

theorem heldAfter_none (xs : List NodeConnection) :
    (heldAfter none xs).ownDirects = ∅ ∧ (heldAfter none xs).ownProxies = ∅ := by
  have hrun : ∀ h : ConnectionsHeld, h.ownSource = none → h.ownDirects = ∅ ∧ h.ownProxies = ∅ →
      (xs.foldl applied h).ownDirects = ∅ ∧ (xs.foldl applied h).ownProxies = ∅ := by
    induction xs with
    | nil => exact fun h _ hempty => hempty
    | cons e xs ih =>
      intro h hown hempty
      refine ih (h.applied e) ((applied_kept h e).1.trans hown) ?_
      unfold applied apply
      cases e.shapeRefusal with
      | some reason => exact hempty
      | none =>
        dsimp only
        cases h.cells[e.index]?.filter fun held => decide (e.stamp ≤ held.stamp) with
        | some held => exact hempty
        | none => simpa [hown] using hempty
  exact hrun new rfl ⟨rfl, rfl⟩

theorem heldAfter_ext {xs ys : List NodeConnection}
    (hslots : ∀ i, (heldAfter own xs).slot i = (heldAfter own ys).slot i) : heldAfter own xs = heldAfter own ys := by
  obtain ⟨hown, hcomplete, hview⟩ := heldAfter_kept own xs
  obtain ⟨hown', hcomplete', hview'⟩ := heldAfter_kept own ys
  have hcells : (heldAfter own xs).cells = (heldAfter own ys).cells :=
    Std.ExtTreeMap.ext_getElem? fun i => congrArg Slot.cell (hslots i)
  have howned : (heldAfter own xs).ownDirects = (heldAfter own ys).ownDirects ∧
      (heldAfter own xs).ownProxies = (heldAfter own ys).ownProxies := by
    cases own with
    | none =>
      obtain ⟨hdirects, hproxies⟩ := heldAfter_none xs
      obtain ⟨hdirects', hproxies'⟩ := heldAfter_none ys
      exact ⟨hdirects.trans hdirects'.symm, hproxies.trans hproxies'.symm⟩
    | some name =>
      constructor
      · refine Std.ExtTreeMap.ext_getElem? fun k => ?_
        have hslot := congrArg Slot.own (hslots ⟨name, k.1, k.2, .direct⟩)
        simpa [slot, hown, hown'] using hslot
      · refine Std.ExtTreeMap.ext_getElem? fun k => ?_
        have hslot := congrArg Slot.own (hslots ⟨name, k.1, k.2, .proxy⟩)
        simpa [slot, hown, hown'] using hslot
  generalize heldAfter own xs = h at *
  generalize heldAfter own ys = h' at *
  obtain ⟨cells, complete, ownSource, ownProxies, ownDirects, view⟩ := h
  obtain ⟨cells', complete', ownSource', ownProxies', ownDirects', view'⟩ := h'
  dsimp only at *
  subst hown hown' hcomplete hcomplete' hview hview' hcells
  rw [howned.1, howned.2]

end ConnectionsHeld

section OneKey

variable {own : Option String} {i : ConnectionIndex} {es : List NodeConnection} {e : NodeConnection} {s : Slot}
  {l : Option NodeConnection}

/-- The latest entry of a key. -/
def later (held : Option NodeConnection) (e : NodeConnection) : Option NodeConnection :=
  if held.any fun d => decide (e.stamp ≤ d.stamp) then held else some e

theorem later_offered (held : Option NodeConnection) (e : NodeConnection) :
    Offered (fun d => d.stamp.toNat) held e (later held e) := by
  unfold later
  cases held with
  | none => exact .taken (by simp)
  | some d =>
    by_cases hle : e.stamp ≤ d.stamp
    · rw [if_pos (by simpa using hle)]
      exact .kept (UInt64.le_iff_toNat_le.mp hle)
    · rw [if_neg (by simpa using hle)]
      refine .taken fun a ha => ?_
      cases ha
      rw [UInt64.le_iff_toNat_le] at hle
      omega

/-- What a key holds once an entry that is not Refused is its latest. -/
def settled (own : Option String) (e : NodeConnection) : Slot :=
  ⟨some (ConnectionsHeld.cellAfter none e), ownAfter own none e⟩

/-- What a key holds of its latest entry. -/
structure Follows (own : Option String) (i : ConnectionIndex) (s : Slot) (latest : Option NodeConnection) : Prop where
  stamp : s.cell.map Cell.stamp = latest.map NodeConnection.stamp
  other : own ≠ some i.source → s.own = none
  settles : ∀ e, latest = some e → e.state ≠ .refused → s = settled own e

theorem stale_iff (h : Follows own i s l) :
    (s.cell.any fun held => decide (e.stamp ≤ held.stamp)) = l.any fun d => decide (e.stamp ≤ d.stamp) := by
  have hstamp := h.stamp
  cases hcell : s.cell with
  | none =>
    cases hl : l with
    | none => rfl
    | some d => simp [hcell, hl] at hstamp
  | some c =>
    cases hl : l with
    | none => simp [hcell, hl] at hstamp
    | some d =>
      have heq : c.stamp = d.stamp := by simpa [hcell, hl] using hstamp
      simp [heq]

theorem Follows.offer (h : Follows own i s l) (hindex : e.index = i) : Follows own i (s.offer own e) (later l e) := by
  unfold Slot.offer later
  rw [stale_iff h]
  split
  next => exact h
  next =>
    have hsource : e.source.nodeId = i.source := by rw [← hindex]; rfl
    refine ⟨?_, fun hother => ?_, fun d hd hstate => ?_⟩
    · unfold ConnectionsHeld.cellAfter
      split <;> rfl
    · unfold ownAfter
      rw [if_pos (by rw [hsource]; exact hother)]
      exact h.other hother
    · cases hd
      refine Slot.ext ?_ ?_
      · simp [settled, ConnectionsHeld.cellAfter, hstate]
      · unfold settled ownAfter
        split
        next hother =>
          rw [hsource] at hother
          exact h.other hother
        next =>
          cases e.kind with
          | direct => simp
          | proxy => rfl

theorem follows_foldl (hindex : ∀ e ∈ es, e.index = i) (h : Follows own i s l) :
    Follows own i (es.foldl (Slot.offer own) s) (es.foldl later l) := by
  induction es generalizing s l with
  | nil => exact h
  | cons e es ih =>
    exact ih (fun d hd => hindex d (List.mem_cons_of_mem e hd)) (h.offer (hindex e List.mem_cons_self))

/-- An entry that leaves nothing to keep: Disconnected, of another source than the holder's. -/
def Quiet (own : Option String) (e : NodeConnection) : Prop := e.state = .disconnected ∧ own ≠ some e.source.nodeId

/-- A key all of whose entries are Refused or leave nothing holds a stamp only. -/
theorem bare_foldl (hquiet : ∀ e ∈ es, (e.state = .refused ∧ e.kind = .direct) ∨ Quiet own e)
    (hs : s.cell.bind Cell.active = none ∧ s.cell.bind Cell.failed = none ∧ s.own = none) :
    (es.foldl (Slot.offer own) s).cell.bind Cell.active = none ∧
      (es.foldl (Slot.offer own) s).cell.bind Cell.failed = none ∧ (es.foldl (Slot.offer own) s).own = none := by
  induction es generalizing s with
  | nil => exact hs
  | cons e es ih =>
    refine ih (fun d hd => hquiet d (List.mem_cons_of_mem e hd)) ?_
    unfold Slot.offer
    split
    next => exact hs
    next =>
      obtain ⟨hactive, hfailed, hown⟩ := hs
      rcases hquiet e List.mem_cons_self with ⟨hrefused, hkind⟩ | ⟨hstate, hsource⟩
      · refine ⟨?_, ?_, ?_⟩
        · simp [ConnectionsHeld.cellAfter, hrefused, hactive]
        · simp [ConnectionsHeld.cellAfter, hrefused, hfailed]
        · simp [ownAfter, hkind, hrefused, hown]
      · refine ⟨?_, ?_, ?_⟩
        · simp [ConnectionsHeld.cellAfter, hstate, NodeConnection.isActiveDirect]
        · simp [ConnectionsHeld.cellAfter, hstate]
        · simp [ownAfter, hsource, hown]

theorem foldl_stale {c : Cell} {o : Option NodeConnection} (h : ∀ e ∈ es, e.stamp ≤ c.stamp) :
    es.foldl (Slot.offer own) ⟨some c, o⟩ = ⟨some c, o⟩ := by
  induction es with
  | nil => rfl
  | cons e es ih =>
    have hle := h e List.mem_cons_self
    have hoffer : Slot.offer own ⟨some c, o⟩ e = ⟨some c, o⟩ := by simp [Slot.offer, hle]
    rw [List.foldl_cons, hoffer]
    exact ih fun d hd => h d (List.mem_cons_of_mem e hd)

end OneKey

/-- Well-shaped entries, no two of one key at one stamp. -/
structure Entries (entries : List NodeConnection) : Prop where
  shaped : ∀ e ∈ entries, e.shapeRefusal = none
  stamps : ∀ d ∈ entries, ∀ e ∈ entries, d.index = e.index → d.stamp = e.stamp → d = e

/-- What two holders agree on: of every key its stamp, active fact and failed destination, their own entries, and
the route of every invocation under one view. -/
structure Agree (h h' : ConnectionsHeld) : Prop where
  stamps : ∀ i : ConnectionIndex, h.cells[i]?.map Cell.stamp = h'.cells[i]?.map Cell.stamp
  actives : ∀ i : ConnectionIndex, h.cells[i]?.bind Cell.active = h'.cells[i]?.bind Cell.active
  faileds : ∀ i : ConnectionIndex, h.cells[i]?.bind Cell.failed = h'.cells[i]?.bind Cell.failed
  ownDirects : h.ownDirects = h'.ownDirects
  ownProxies : h.ownProxies = h'.ownProxies
  routes : ∀ view complete own destination alpn proxy carriers,
    (resolveForCarriers { h with topologyView := view, complete := complete } own destination alpn proxy carriers).route =
      (resolveForCarriers { h' with topologyView := view, complete := complete } own destination alpn proxy
        carriers).route

/-- Where the latest entry of a key is Refused, every other kind of entry of it is Disconnected and not the holder's. -/
def Settles (own : Option String) (entries : List NodeConnection) : Prop :=
  ∀ r ∈ entries, r.state = .refused → (∀ e ∈ entries, e.index = r.index → e.stamp ≤ r.stamp) →
    ∀ e ∈ entries, e.index = r.index → e.state ≠ .refused → Quiet own e

theorem kind_of_refused {e : NodeConnection} (hshape : e.shapeRefusal = none) (hrefused : e.state = .refused) :
    e.kind = .direct := by
  cases hkind : e.kind with
  | direct => rfl
  | proxy =>
    unfold NodeConnection.shapeRefusal at hshape
    rw [hkind, hrefused] at hshape
    dsimp only at hshape
    split at hshape <;> cases hshape

section Orders

variable {own : Option String} {entries xs ys : List NodeConnection}

theorem slot_eq (h : Entries entries) (hsettles : Settles own entries) (hxs : ∀ e, e ∈ xs ↔ e ∈ entries)
    (hys : ∀ e, e ∈ ys ↔ e ∈ entries) (i : ConnectionIndex) :
    (ConnectionsHeld.heldAfter own xs).slot i = (ConnectionsHeld.heldAfter own ys).slot i := by
  have hsame : ∀ e, e ∈ xs.filter (fun e => e.index = i) ↔ e ∈ ys.filter (fun e => e.index = i) := by
    intro e
    rw [List.mem_filter, List.mem_filter, hxs, hys]
  have hmem : ∀ e ∈ xs.filter (fun e => e.index = i), e ∈ entries ∧ e.index = i := by
    intro e he
    have hfilter := List.mem_filter.mp he
    exact ⟨(hxs e).mp hfilter.1, of_decide_eq_true hfilter.2⟩
  have hback : ∀ e ∈ entries, e.index = i → e ∈ xs.filter (fun e => e.index = i) := by
    intro e he hei
    exact List.mem_filter.mpr ⟨(hxs e).mpr he, decide_eq_true hei⟩
  have hmem' : ∀ e ∈ ys.filter (fun e => e.index = i), e ∈ entries ∧ e.index = i := fun e he => hmem e ((hsame e).mpr he)
  rw [ConnectionsHeld.slot_heldAfter fun e he => h.shaped e ((hxs e).mp he),
    ConnectionsHeld.slot_heldAfter fun e he => h.shaped e ((hys e).mp he)]
  generalize xs.filter (fun e => e.index = i) = es at *
  generalize ys.filter (fun e => e.index = i) = ds at *
  have hstart : Follows own i ⟨none, none⟩ none := ⟨rfl, fun _ => rfl, by simp⟩
  have hes := follows_foldl (fun e he => (hmem e he).2) hstart
  have hds := follows_foldl (fun e he => (hmem' e he).2) hstart
  have hlatest : es.foldl later none = ds.foldl later none := by
    refine foldl_eq_of_mem_iff later_offered (fun d hd e he hkey => ?_) hsame
    obtain ⟨hd, hdi⟩ := hmem d hd
    obtain ⟨he, hei⟩ := hmem e he
    exact h.stamps d hd e he (hdi.trans hei.symm) (UInt64.toNat_inj.mp hkey)
  rcases foldl_none later_offered es with ⟨rfl, -⟩ | ⟨m, hm, hmax⟩
  · cases ds with
    | nil => rfl
    | cons d ds => exact absurd ((hsame d).mpr List.mem_cons_self) List.not_mem_nil
  · rw [hm] at hes hlatest
    rw [← hlatest] at hds
    obtain ⟨hmentry, hmi⟩ := hmem m hmax.mem
    by_cases hrefused : m.state = .refused
    · -- Nothing the latest entry could keep was ever held.
      have hquiet := hsettles m hmentry hrefused fun e he hei =>
        UInt64.le_iff_toNat_le.mpr (hmax.le e (hback e he (hei.trans hmi)))
      have hbare : ∀ l : List NodeConnection, (∀ e ∈ l, e ∈ entries ∧ e.index = i) →
          ∀ e ∈ l, (e.state = .refused ∧ e.kind = .direct) ∨ Quiet own e := by
        intro l hl e he
        obtain ⟨hentry, hei⟩ := hl e he
        by_cases hstate : e.state = .refused
        · exact Or.inl ⟨hstate, kind_of_refused (h.shaped e hentry) hstate⟩
        · exact Or.inr (hquiet e hentry (hei.trans hmi.symm) hstate)
      obtain ⟨hactive, hfailed, hown⟩ := @bare_foldl own es ⟨none, none⟩ (hbare es hmem) ⟨rfl, rfl, rfl⟩
      obtain ⟨hactive', hfailed', hown'⟩ := @bare_foldl own ds ⟨none, none⟩ (hbare ds hmem') ⟨rfl, rfl, rfl⟩
      refine Slot.ext ?_ (hown.trans hown'.symm)
      have hstamp := hes.stamp.trans hds.stamp.symm
      generalize (es.foldl (Slot.offer own) ⟨none, none⟩).cell = c at *
      generalize (ds.foldl (Slot.offer own) ⟨none, none⟩).cell = c' at *
      cases c with
      | none =>
        cases c' with
        | none => rfl
        | some c' => simp at hstamp
      | some c =>
        cases c' with
        | none => simp at hstamp
        | some c' =>
          obtain ⟨stamp, active, failed⟩ := c
          obtain ⟨stamp', active', failed'⟩ := c'
          simp_all
    · rw [hes.settles m rfl hrefused, hds.settles m rfl hrefused]

theorem Agree.of_eq {h h' : ConnectionsHeld} (heq : h = h') : Agree h h' := by
  subst heq
  exact ⟨fun _ => rfl, fun _ => rfl, fun _ => rfl, rfl, rfl, fun _ _ _ _ _ _ _ => rfl⟩

/-- The Refused entry of a key arrives first, and nothing of the key is ever held. -/
theorem slot_refused_first (h : Entries entries) {r : NodeConnection} (hr : r ∈ entries) (hrefused : r.state = .refused)
    (hlatest : ∀ e ∈ entries, e.index = r.index → e.stamp ≤ r.stamp) :
    (ConnectionsHeld.heldAfter own (r :: entries)).slot r.index = ⟨some ⟨r.stamp, none, none⟩, none⟩ := by
  have hkind := kind_of_refused (h.shaped r hr) hrefused
  have hshape : ∀ e ∈ r :: entries, e.shapeRefusal = none := by
    intro e he
    rcases List.mem_cons.mp he with rfl | he
    · exact h.shaped e hr
    · exact h.shaped e he
  have hfirst : Slot.offer own ⟨none, none⟩ r = ⟨some ⟨r.stamp, none, none⟩, none⟩ := by
    simp [Slot.offer, ConnectionsHeld.cellAfter, ownAfter, hrefused, hkind]
  rw [ConnectionsHeld.slot_heldAfter hshape, List.filter_cons, if_pos (decide_eq_true rfl), List.foldl_cons, hfirst]
  refine foldl_stale fun e he => ?_
  have hfilter := List.mem_filter.mp he
  exact hlatest e hfilter.1 (of_decide_eq_true hfilter.2)

/-- An entry of the key arrives before the Refused one, and is kept by it. -/
theorem slot_refused_second (h : Entries entries) {r e : NodeConnection} (hr : r ∈ entries) (he : e ∈ entries)
    (hrefused : r.state = .refused) (hlatest : ∀ e ∈ entries, e.index = r.index → e.stamp ≤ r.stamp)
    (hindex : e.index = r.index) (hstate : e.state ≠ .refused) :
    (ConnectionsHeld.heldAfter own (e :: r :: entries)).slot r.index =
      ⟨some ⟨r.stamp, if e.state = .connected then some e else none, if e.state = .failed then some e.destination else none⟩,
        if own = some e.source.nodeId then some e else none⟩ := by
  have hkind := kind_of_refused (h.shaped r hr) hrefused
  have hekind : e.kind = .direct := by
    have hsame : e.index.kind = r.index.kind := by rw [hindex]
    exact hsame.trans hkind
  have hshape : ∀ d ∈ e :: r :: entries, d.shapeRefusal = none := by
    intro d hd
    rcases List.mem_cons.mp hd with rfl | hd
    · exact h.shaped d he
    · rcases List.mem_cons.mp hd with rfl | hd
      · exact h.shaped d hr
      · exact h.shaped d hd
  have hlt : ¬ r.stamp ≤ e.stamp := by
    intro hle
    have heq : e = r := h.stamps e he r hr hindex (UInt64.le_antisymm (hlatest e he hindex) hle)
    rw [heq] at hstate
    exact hstate hrefused
  have hfirst : Slot.offer own ⟨none, none⟩ e =
      ⟨some ⟨e.stamp, if e.state = .connected then some e else none, if e.state = .failed then some e.destination else none⟩,
        if own = some e.source.nodeId then some e else none⟩ := by
    by_cases hown : own = some e.source.nodeId
    · simp [Slot.offer, ConnectionsHeld.cellAfter, ownAfter, hstate, hekind, hown, NodeConnection.isActiveDirect]
    · simp [Slot.offer, ConnectionsHeld.cellAfter, ownAfter, hstate, hekind, hown, NodeConnection.isActiveDirect]
  have hsecond : ∀ o : Option NodeConnection, ∀ c : Cell, c.stamp = e.stamp →
      Slot.offer own ⟨some c, o⟩ r = ⟨some ⟨r.stamp, c.active, c.failed⟩, o⟩ := by
    intro o c hc
    simp [Slot.offer, ConnectionsHeld.cellAfter, ownAfter, hrefused, hkind, hc, hlt]
  rw [ConnectionsHeld.slot_heldAfter hshape, List.filter_cons, if_pos (decide_eq_true hindex), List.filter_cons,
    if_pos (decide_eq_true rfl), List.foldl_cons, hfirst, List.foldl_cons, hsecond _ _ rfl]
  refine foldl_stale fun d hd => ?_
  have hfilter := List.mem_filter.mp hd
  exact hlatest d hfilter.1 (of_decide_eq_true hfilter.2)

theorem settles_of_agree (h : Entries entries)
    (hagree : ∀ xs ys, (∀ e, e ∈ xs ↔ e ∈ entries) → (∀ e, e ∈ ys ↔ e ∈ entries) →
      Agree (ConnectionsHeld.heldAfter own xs) (ConnectionsHeld.heldAfter own ys)) : Settles own entries := by
  intro r hr hrefused hlatest e he hindex hstate
  have hfirst := @slot_refused_first own entries h r hr hrefused hlatest
  have hsecond := @slot_refused_second own entries h r e hr he hrefused hlatest hindex hstate
  have hadded : ∀ {d : NodeConnection} {l : List NodeConnection}, d ∈ entries → (∀ e, e ∈ l ↔ e ∈ entries) →
      ∀ e, e ∈ d :: l ↔ e ∈ entries := by
    intro d l hd hl e
    rw [List.mem_cons, hl]
    exact ⟨fun hor => hor.elim (fun heq => heq ▸ hd) id, Or.inr⟩
  have hwithr := hadded hr fun e => Iff.rfl
  have hboth := hagree (r :: entries) (e :: r :: entries) hwithr (hadded he hwithr)
  have hactive := hboth.actives r.index
  have hfailed := hboth.faileds r.index
  have hcell := congrArg Slot.cell hfirst
  have hcell' := congrArg Slot.cell hsecond
  dsimp only [ConnectionsHeld.slot] at hcell hcell'
  rw [hcell, hcell'] at hactive hfailed
  refine ⟨?_, fun hown => ?_⟩
  · cases hs : e.state with
    | connected => simp [hs] at hactive
    | disconnected => rfl
    | failed => simp [hs] at hfailed
    | refused => exact absurd hs hstate
  · have hkind := kind_of_refused (h.shaped r hr) hrefused
    have hsource : e.source.nodeId = r.source.nodeId := congrArg ConnectionIndex.source hindex
    have howned := congrArg Slot.own hfirst
    have howned' := congrArg Slot.own hsecond
    have hkept := (ConnectionsHeld.heldAfter_kept own (r :: entries)).1
    have hkept' := (ConnectionsHeld.heldAfter_kept own (e :: r :: entries)).1
    have hin : r.index.kind = .direct := hkind
    have hat : own = some r.index.source := hown.trans (congrArg some hsource)
    simp only [ConnectionsHeld.slot, hkept, hkept', hin, if_pos hat, if_pos hown] at howned howned'
    rw [hboth.ownDirects, howned'] at howned
    cases howned

/-- Holders of one source converge whatever the order of the entries, exactly when no Refused entry is the latest of a
key that another entry left something of. -/
theorem connections_converge_iff (h : Entries entries) :
    (∀ xs ys, (∀ e, e ∈ xs ↔ e ∈ entries) → (∀ e, e ∈ ys ↔ e ∈ entries) →
      Agree (ConnectionsHeld.heldAfter own xs) (ConnectionsHeld.heldAfter own ys)) ↔ Settles own entries := by
  constructor
  · exact settles_of_agree h
  · intro hsettles xs ys hxs hys
    exact Agree.of_eq (ConnectionsHeld.heldAfter_ext (slot_eq h hsettles hxs hys))

end Orders

instance (own : Option String) (e : NodeConnection) : Decidable (Quiet own e) := inferInstanceAs (Decidable (_ ∧ _))

instance (own : Option String) (entries : List NodeConnection) : Decidable (Settles own entries) :=
  inferInstanceAs (Decidable (∀ r ∈ entries, _ → (∀ e ∈ entries, _) → ∀ e ∈ entries, _))

def endOf (node : String) : ConnectionEnd := ⟨"m", "node-admin", "p", node, node, some "b1"⟩

/-- A Direct fact of two nodes. -/
def factOf (id : String) (state : ConnectionState) (loggedAtMs : UInt64) : NodeConnection :=
  ⟨id, endOf "n1", endOf "n2", .direct, [1], state, none, none, loggedAtMs⟩

/-- A connection drops, and is made again. -/
def droppedAndMade : List NodeConnection := [factOf "c1" .connected 5, factOf "c2" .disconnected 7, factOf "c3" .connected 9]

theorem connections_converge_droppedAndMade :
    Settles (some "n1") droppedAndMade ∧
      Agree (ConnectionsHeld.heldAfter (some "n1") droppedAndMade)
        (ConnectionsHeld.heldAfter (some "n1") droppedAndMade.reverse) := by
  have hentries : Entries droppedAndMade := ⟨by decide, by decide⟩
  have hsettles : Settles (some "n1") droppedAndMade := by decide
  exact ⟨hsettles, (connections_converge_iff hentries).mpr hsettles _ _ (fun e => Iff.rfl) (by simp)⟩

/-- A connection stands, and the acceptor refuses a later dial of it. -/
def refusedLater : List NodeConnection := [factOf "c1" .connected 5, factOf "c2" .refused 7]

theorem connection_lost_by_order :
    Entries refusedLater ∧
      ((ConnectionsHeld.heldAfter none refusedLater).cells[(factOf "c1" .connected 5).index]?.bind Cell.active).isSome =
        true ∧
      ((ConnectionsHeld.heldAfter none refusedLater.reverse).cells[(factOf "c1" .connected 5).index]?.bind
        Cell.active).isSome = false ∧
      ¬ Agree (ConnectionsHeld.heldAfter none refusedLater) (ConnectionsHeld.heldAfter none refusedLater.reverse) := by
  have hfirst : ((ConnectionsHeld.heldAfter none refusedLater).cells[(factOf "c1" .connected 5).index]?.bind
      Cell.active).isSome = true := by
    decide +kernel
  have hsecond : ((ConnectionsHeld.heldAfter none refusedLater.reverse).cells[(factOf "c1" .connected 5).index]?.bind
      Cell.active).isSome = false := by
    decide +kernel
  refine ⟨⟨by decide, by decide⟩, hfirst, hsecond, fun hagree => ?_⟩
  rw [hagree.actives, hsecond] at hfirst
  cases hfirst

end DistributedMesh.Connections
